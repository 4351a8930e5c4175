import Std.Data.ExtTreeMap

/-! The decisions taken for named keys: for each key at most one, positive or negative. -/

namespace Phrasebook

open Std

/-- The decisions taken so far, by key. -/
abbrev Decisions := ExtTreeMap String Bool

namespace Decisions

instance : DecidableEq Decisions := fun a b =>
  decidable_of_iff (a.toList = b.toList) ExtTreeMap.toList_inj

instance : Hashable Decisions := ⟨fun decisions => hash decisions.toList⟩

/-- Takes a decision for a key, unless the opposite one was taken. -/
def take? (decisions : Decisions) (key : String) (decision : Bool) : Option Decisions :=
  match decisions[key]? with
  | some taken => if taken = decision then some decisions else none
  | none => some (decisions.insert key decision)

/-- Takes a decision for a content's key, if it has one. -/
def takeFor? (decisions : Decisions) (key : Option String) (decision : Bool) : Option Decisions :=
  match key with
  | none => some decisions
  | some key => decisions.take? key decision

/-- The decisions of both, unless they contradict each other. -/
def merge? (decisions other : Decisions) : Option Decisions :=
  other.toList.foldlM (fun merged (key, decision) => merged.take? key decision) decisions

end Decisions

end Phrasebook
