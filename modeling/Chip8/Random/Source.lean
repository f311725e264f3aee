import Chip8.Random.ChaCha

namespace Chip8.Random

/-- The successor in the linear congruential sequence that spreads a seed over a key. -/
def nextState (state : UInt64) : UInt64 := state * 6364136223846793005 + 11634580027462260723

def stateWord (state : UInt64) : UInt32 :=
  let w := (((state >>> 18) ^^^ state) >>> 27).toUInt32
  let k := (state >>> 59).toUInt32
  w >>> k ||| w <<< ((32 - k) % 32)

def keyOfSeed (seed : UInt64) : Key :=
  .ofFn fun k => stateWord (Nat.repeat nextState (k.val + 1) seed)

/-- The byte stream of a key: the low bytes of the words of the keystream, block after block. -/
def byteAt (key : Key) (n : Nat) : UInt8 := (keystream key (n / 16))[n % 16].toUInt8

structure Source where
  key : Key
  drawn : Nat
  deriving DecidableEq

namespace Source

def ofSeed (seed : UInt64) : Source := ⟨keyOfSeed seed, 0⟩

def next (s : Source) : UInt8 := byteAt s.key s.drawn

def advance (s : Source) : Source := { s with drawn := s.drawn + 1 }

end Source

end Chip8.Random
