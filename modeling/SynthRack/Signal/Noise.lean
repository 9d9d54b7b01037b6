/-!
# White noise

A noise generator is a stream cipher read one word at a time: a 32-byte key spread from a 64-bit
seed, blocks of twelve mixing rounds over a block counter, and each word turned into a sample
between minus one and one.
-/

namespace SynthRack

/-- One cipher block: sixteen words. -/
abbrev Block := Vector UInt32 16

namespace Block

/-- Rotation to the left; an amount of zero leaves the word as it is. -/
@[inline] def rotateLeft (x amount : UInt32) : UInt32 :=
  (x <<< amount) ||| (x >>> (32 - amount))

/-- Mixes four words of a block. -/
@[inline] def quarter (s : Block) (a b c d : Fin 16) : Block :=
  let xa := s[a] + s[b]
  let xd := rotateLeft (s[d] ^^^ xa) 16
  let xc := s[c] + xd
  let xb := rotateLeft (s[b] ^^^ xc) 12
  let xa := xa + xb
  let xd := rotateLeft (xd ^^^ xa) 8
  let xc := xc + xd
  let xb := rotateLeft (xb ^^^ xc) 7
  (((s.set a xa).set b xb).set c xc).set d xd

/-- Two rounds: the four columns, then the four diagonals. -/
def doubleRound (s : Block) : Block :=
  let s := quarter s 0 4 8 12
  let s := quarter s 1 5 9 13
  let s := quarter s 2 6 10 14
  let s := quarter s 3 7 11 15
  let s := quarter s 0 5 10 15
  let s := quarter s 1 6 11 12
  let s := quarter s 2 7 8 13
  quarter s 3 4 9 14

/-- The block before mixing: four constants, the key, the counter and no nonce. -/
def start (key : Vector UInt32 8) (counter : UInt64) : Block :=
  #v[0x61707865, 0x3320646e, 0x79622d32, 0x6b206574,
    key[0], key[1], key[2], key[3], key[4], key[5], key[6], key[7],
    counter.toUInt32, (counter >>> 32).toUInt32, 0, 0]

/-- The key stream block at a counter: twelve rounds, added to the block before mixing. -/
def keyStream (key : Vector UInt32 8) (counter : UInt64) : Block :=
  let initial := start key counter
  Vector.zipWith (· + ·) (Nat.repeat doubleRound 6 initial) initial

end Block

/-- A seeded source of noise: the key, the next block's counter, and the words still to be used
from the last block. -/
structure NoiseSource where
  key : Vector UInt32 8
  counter : UInt64
  pending : List UInt32
  deriving DecidableEq

namespace NoiseSource

/-- The next state of the generator that spreads a seed over a key. -/
def spread (state : UInt64) : UInt64 := state * 6364136223846793005 + 11634580027462260723

/-- The key word drawn from a state: a word picked by the high bits and rotated by the highest. -/
def keyWord (state : UInt64) : UInt32 :=
  let word := (((state >>> 18) ^^^ state) >>> 27).toUInt32
  let turn := (state >>> 59).toUInt32
  (word >>> turn) ||| (word <<< (32 - turn))

/-- The source grown from a seed. -/
def ofSeed (seed : UInt64) : NoiseSource where
  key := Vector.ofFn fun i => keyWord (Nat.repeat spread (i + 1) seed)
  counter := 0
  pending := []

/-- The next word and the source after it. -/
def nextWord (source : NoiseSource) : UInt32 × NoiseSource :=
  match source.pending with
  | word :: rest => (word, { source with pending := rest })
  | [] =>
    let block := Block.keyStream source.key source.counter
    (block[0], { source with counter := source.counter + 1, pending := block.toList.tail })

/-- The sample a word stands for: its high bits as a number from zero up to one, stretched over
the interval from minus one to one. -/
@[inline] def sampleOfWord (word : UInt32) : Float32 :=
  let unit := Float32.ofBits ((word >>> 9) ||| 0x3f800000) - 1
  unit * Float32.ofBits 0x40000001 + (-1)

/-- The next sample and the source after it. -/
def next (source : NoiseSource) : Float32 × NoiseSource :=
  let (word, source) := source.nextWord
  (sampleOfWord word, source)

end NoiseSource

end SynthRack
