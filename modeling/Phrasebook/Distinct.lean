import Std.Data.HashSet

/-! Lists without repetitions: of items that are equal, or that have equal keys, the first one stays
where it is. -/

namespace Phrasebook

variable {α β : Type} [BEq β] [Hashable β]

/-- Takes an item unless its key was seen; the state holds the keys seen and the items taken. -/
def takeNew (key : α → β) (state : Std.HashSet β × Array α) (item : α) : Std.HashSet β × Array α :=
  if state.1.contains (key item) then state
  else (state.1.insert (key item), state.2.push item)

/-- The items with a key that no item before them has. -/
def distinctBy (key : α → β) (items : List α) : List α :=
  (items.foldl (takeNew key) (∅, #[])).2.toList

/-- The items that no item before them equals. -/
def distinct (items : List β) : List β := distinctBy id items

end Phrasebook
