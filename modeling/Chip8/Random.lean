import Chip8.Digit

namespace Chip8.Random

-- A permuted congruential generator draws the key from the seed. This is one step of it.
def advance (state : UInt64) : UInt64 := state * 6364136223846793005 + 11634580027462260723

def rotateRight (word : UInt32) (n : UInt32) : UInt32 :=
  if n = 0 then word else (word >>> n) ||| (word <<< (32 - n))

-- The word that a state of the congruential generator gives out.
def permute (state : UInt64) : UInt32 :=
  rotateRight ((((state >>> 18) ^^^ state) >>> 27).toUInt32) (state >>> 59).toUInt32

def keyWords : Nat → UInt64 → List UInt32
  | 0, _ => []
  | count + 1, state => permute (advance state) :: keyWords count (advance state)

def rotateLeft (word : UInt32) (n : UInt32) : UInt32 := (word <<< n) ||| (word >>> (32 - n))

abbrev Block := Vector UInt32 16

def quarterRound (s : Block) (a b c d : Digit) : Block :=
  let va := s[a] + s[b]
  let vd := rotateLeft (s[d] ^^^ va) 16
  let vc := s[c] + vd
  let vb := rotateLeft (s[b] ^^^ vc) 12
  let va := va + vb
  let vd := rotateLeft (vd ^^^ va) 8
  let vc := vc + vd
  let vb := rotateLeft (vb ^^^ vc) 7
  (((s.set a va a.isLt).set b vb b.isLt).set c vc c.isLt).set d vd d.isLt

-- The columns and then the diagonals of the 4 by 4 square.
def doubleRound (s : Block) : Block :=
  let s := quarterRound s 0 4 8 12
  let s := quarterRound s 1 5 9 13
  let s := quarterRound s 2 6 10 14
  let s := quarterRound s 3 7 11 15
  let s := quarterRound s 0 5 10 15
  let s := quarterRound s 1 6 11 12
  let s := quarterRound s 2 7 8 13
  quarterRound s 3 4 9 14

-- Constants, key, block counter of 64 bits and a nonce of zeros.
def initial (seed : UInt64) (block : Nat) : Block :=
  let constants : List UInt32 := [0x61707865, 0x3320646e, 0x79622d32, 0x6b206574]
  let counter : List UInt32 := [UInt32.ofNat block, UInt32.ofNat (block / UInt32.size), 0, 0]
  let words := (constants ++ keyWords 8 seed ++ counter).toArray
  Vector.ofFn fun k => words.getD k 0

-- ChaCha with twelve rounds.
def keystream (seed : UInt64) (block : Nat) : Block :=
  let start := initial seed block
  let mixed := Nat.repeat doubleRound 6 start
  Vector.zipWith (· + ·) mixed start

-- The bytes of a seed, counted from 0: the low byte of each word.
def byteAt (seed : UInt64) (k : Nat) : UInt8 :=
  (keystream seed (k / 16))[Fin.ofNat 16 k].toUInt8

end Chip8.Random

namespace Chip8

-- A seed and how many of its bytes are used up.
structure Random where
  seed : UInt64
  used : Nat
deriving DecidableEq, Repr

namespace Random

def ofSeed (seed : UInt64) : Random := ⟨seed, 0⟩

def next (r : Random) : UInt8 × Random := (byteAt r.seed r.used, { r with used := r.used + 1 })

end Random

end Chip8
