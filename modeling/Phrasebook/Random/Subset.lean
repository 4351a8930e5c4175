import Phrasebook.Random.Source

/-! Random subsets of the first numbers: a given number of indices, each set of them equally likely.
Few indices are collected one by one; many are taken from the front of a shuffled list. -/

namespace Phrasebook.Subset

variable {Source : Type} [RandomSource Source]

/-- Shuffles the front of a list: each of the next `count` places is swapped with itself or a place
behind it. -/
def shuffle {length : Nat} (place : Nat) (indices : Vector Nat length) (source : Source) :
    Nat → Vector Nat length × Source
  | 0 => (indices, source)
  | count + 1 =>
    if h : place < length then
      let (offset, source) := RandomSource.index (length - place) (by omega) source
      have := offset.isLt
      shuffle (place + 1) (indices.swap place (place + offset.val)) source count
    else
      (indices, source)

/-- Takes the indices from the front of the shuffled list of all. -/
def shuffled (length count : Nat) (source : Source) : List Nat × Source :=
  let (indices, source) := shuffle 0 (Vector.range length) source count
  (indices.toList.take count, source)

/-- Adds an index up to `last` to a set of indices below `last`: if the one drawn is there already,
`last` itself is added. -/
def addUpTo (last : Nat) (state : List Nat × Source) : List Nat × Source :=
  let (chosen, source) := state
  let (drawn, source) := RandomSource.index (last + 1) (by omega) source
  if chosen.contains drawn.val then (last :: chosen, source) else (drawn.val :: chosen, source)

/-- Collects the indices one by one, the largest possible one growing from step to step. -/
def collected (length count : Nat) (source : Source) : List Nat × Source :=
  (List.range' (length - count) count).foldl (fun state last => addUpTo last state) ([], source)

/-- Whether collecting one by one would search too long in a short list. The bound is computed in
single precision. -/
def prefersShuffle (length count : Nat) : Bool :=
  if count < 163 then
    let size := Float32.ofNat count
    11 < count && Float32.ofNat length < (10 + 1.6 * size) * size
  else
    true

/-- Chooses `count` of the indices below `length`, of which there are at least as many. -/
def choose (length count : Nat) (source : Source) : List Nat × Source :=
  if prefersShuffle length count then shuffled length count source
  else collected length count source

end Phrasebook.Subset
