namespace Chip8

/-- Sixty-four by thirty-two pixels, row after row from the top left. -/
structure Screen where
  pixels : Vector Bool 2048
  deriving DecidableEq

namespace Screen

def blank : Screen := ⟨.replicate 2048 false⟩

def position (x y : Nat) : Fin 2048 := ⟨64 * (y % 32) + x % 64, by omega⟩

def get (s : Screen) (x y : Nat) : Bool := s.pixels[position x y]

def isBlank (s : Screen) : Bool := s.pixels.all (!·)

def flip (s : Screen) (p : Fin 2048) : Screen := ⟨s.pixels.set p (!s.pixels[p])⟩

/-- Where the set bits of a sprite fall, from its top row down and in a row from the highest bit
on. A sprite of more than thirty-two rows comes to the same place twice. -/
def cells (x y : Nat) (sprite : List UInt8) : List (Fin 2048) :=
  sprite.zipIdx.flatMap fun (row, dy) =>
    ((List.range 8).filter fun dx => row.toNat.testBit (7 - dx)).map fun dx =>
      position (x + dx) (y + dy)

/-- Flips a list of pixels in turn, and tells whether one of them was set when its turn came, or
there was a collision before. -/
def flipAll (s : Screen) (collided : Bool) : List (Fin 2048) → Screen × Bool
  | [] => (s, collided)
  | p :: ps =>
      let hit := s.pixels[p]
      (s.flip p).flipAll (collided || hit) ps

def draw (s : Screen) (x y : Nat) (sprite : List UInt8) : Screen × Bool :=
  s.flipAll false (cells x y sprite)

def row (s : Screen) (y : Nat) : List Char :=
  (List.range 64).map fun x => if s.get x y then '#' else ' '

def text (s : Screen) : String :=
  String.ofList ((List.range 32).flatMap fun y => s.row y ++ ['\n'])

def enclosed (s : Screen) : String := "Screen \x7b\n" ++ s.text ++ "\x7d"

theorem get_blank (x y : Nat) : blank.get x y = false := by
  simp [get, blank]

theorem getElem_flip (s : Screen) (p q : Fin 2048) :
    (s.flip p).pixels[q] = if p = q then !s.pixels[q] else s.pixels[q] := by
  by_cases h : p = q
  · subst h; simp [flip]
  · simp [flip, Fin.val_ne_of_ne h, h]

end Screen

end Chip8
