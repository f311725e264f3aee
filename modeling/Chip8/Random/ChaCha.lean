namespace Chip8.Random

abbrev Key := Vector UInt32 8

abbrev Block := Vector UInt32 16

def rotateLeft (w k : UInt32) : UInt32 := w <<< k ||| w >>> (32 - k)

def mix (s : Block) (a b d : Fin 16) (k : UInt32) : Block :=
  let sum := s[a] + s[b]
  (s.set a sum).set d (rotateLeft (s[d] ^^^ sum) k)

def quarterRound (s : Block) (a b c d : Fin 16) : Block :=
  mix (mix (mix (mix s a b d 16) c d b 12) a b d 8) c d b 7

def doubleRound (s : Block) : Block :=
  [(0, 4, 8, 12), (1, 5, 9, 13), (2, 6, 10, 14), (3, 7, 11, 15),
    (0, 5, 10, 15), (1, 6, 11, 12), (2, 7, 8, 13), (3, 4, 9, 14)].foldl
    (fun s ((a, b, c, d) : Fin 16 × Fin 16 × Fin 16 × Fin 16) => quarterRound s a b c d) s

/-- The constants, the key, the number of the block in two words, and two words of zero. -/
def input (key : Key) (block : Nat) : Block :=
  #v[0x61707865, 0x3320646E, 0x79622D32, 0x6B206574,
    key[0], key[1], key[2], key[3], key[4], key[5], key[6], key[7],
    UInt32.ofNat block, UInt32.ofNat (block / 0x100000000), 0, 0]

def keystream (key : Key) (block : Nat) : Block :=
  Vector.zipWith (· + ·) (Nat.repeat doubleRound 10 (input key block)) (input key block)

end Chip8.Random
