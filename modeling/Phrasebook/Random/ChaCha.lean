import Phrasebook.Random.Source

/-! A random source from the ChaCha stream cipher with 8 rounds. A seed of 64 bits gives the key; the
words of the key stream are drawn in order. -/

namespace Phrasebook

/-- The words of a block. -/
abbrev ChaChaBlock := Vector UInt32 16

namespace ChaChaBlock

def rotateLeft (word : UInt32) (count : UInt32) : UInt32 :=
  (word <<< count) ||| (word >>> (32 - count))

/-- Mixes four words of a block. -/
def quarterRound (block : ChaChaBlock) (a b c d : Fin 16) : ChaChaBlock :=
  let wa := block[a] + block[b]
  let wd := rotateLeft (block[d] ^^^ wa) 16
  let wc := block[c] + wd
  let wb := rotateLeft (block[b] ^^^ wc) 12
  let wa := wa + wb
  let wd := rotateLeft (wd ^^^ wa) 8
  let wc := wc + wd
  let wb := rotateLeft (wb ^^^ wc) 7
  (((block.set a wa).set b wb).set c wc).set d wd

/-- Mixes the columns, then the diagonals. -/
def doubleRound (block : ChaChaBlock) : ChaChaBlock :=
  let block := quarterRound block 0 4 8 12
  let block := quarterRound block 1 5 9 13
  let block := quarterRound block 2 6 10 14
  let block := quarterRound block 3 7 11 15
  let block := quarterRound block 0 5 10 15
  let block := quarterRound block 1 6 11 12
  let block := quarterRound block 2 7 8 13
  quarterRound block 3 4 9 14

/-- The key stream of a block: eight rounds, and the block added. -/
def keyStream (block : ChaChaBlock) : ChaChaBlock :=
  let mixed := doubleRound (doubleRound (doubleRound (doubleRound block)))
  Vector.zipWith (· + ·) mixed block

end ChaChaBlock

/-- The state of a key stream: the key, the number of the next block and the words of the last block
that were not drawn. -/
structure ChaCha where
  key : Vector UInt32 8
  counter : UInt64 := 0
  unread : List UInt32 := []

namespace ChaCha

/-- The block with a number; its words are four constants, the key, the number and a stream number,
which is 0. -/
def block (key : Vector UInt32 8) (counter : UInt64) : ChaChaBlock :=
  (#v[0x61707865, 0x3320646e, 0x79622d32, 0x6b206574] : Vector UInt32 4) ++ key ++
    (#v[counter.toUInt32, (counter >>> 32).toUInt32, 0, 0] : Vector UInt32 4)

def word (source : ChaCha) : UInt32 × ChaCha :=
  match source.unread with
  | next :: rest => (next, { source with unread := rest })
  | [] =>
    let words := (block source.key source.counter).keyStream
    (words[0], { source with counter := source.counter + 1, unread := words.toList.tail })

/-- One step of the sequence that spreads a seed over a key. -/
def spread (state : UInt64) : UInt64 := state * 6364136223846793005 + 11634580027462260723

/-- The key word of a state of that sequence. -/
def keyWord (state : UInt64) : UInt32 :=
  let mixed := (((state >>> 18) ^^^ state) >>> 27).toUInt32
  let count := (state >>> 59).toUInt32
  (mixed >>> count) ||| (mixed <<< ((32 - count) % 32))

def ofSeed (seed : UInt64) : ChaCha :=
  { key := Vector.ofFn fun place => keyWord (Nat.repeat spread (place.val + 1) seed) }

/-- The product of a word and a number is below 2^32 times that number. -/
theorem word_mul_le (word : UInt32) (count : Nat) : word.toNat * count ≤ 4294967295 * count :=
  Nat.mul_le_mul_right count (by have := word.toNat_lt; omega)

/-- Draws an index: the upper half of the product of a word and the number of indices. Where the lower
half comes close to a carry, a second word decides about it. -/
def index (count : Nat) (h : 0 < count) (source : ChaCha) : Fin count × ChaCha :=
  let (first, source) := source.word
  let product := first.toNat * count
  have hproduct : product ≤ 4294967295 * count := word_mul_le first count
  if hcarry : UInt32.size - count < product % UInt32.size then
    let (second, source) := source.word
    if UInt32.size ≤ product % UInt32.size + second.toNat * count / UInt32.size then
      (⟨product / UInt32.size + 1, by simp only [UInt32.size] at *; omega⟩, source)
    else
      (⟨product / UInt32.size, by simp only [UInt32.size] at *; omega⟩, source)
  else
    (⟨product / UInt32.size, by simp only [UInt32.size] at *; omega⟩, source)

/-- Draws a number of 64 bits, low half first, and tells whether it is below 2^63. -/
def coin (source : ChaCha) : Bool × ChaCha :=
  let (_, source) := source.word
  let (high, source) := source.word
  (high < 0x80000000, source)

instance : RandomSource ChaCha where
  index := index
  coin := coin

end ChaCha

end Phrasebook
