import Std.Data.ExtTreeMap

/-! Units and their names: a template declares aliases, slots and intents, each named once within
its kind, and every list of units is kept in the order of their keys: kind first, then name. -/

namespace Phrasebook

open Std

/-- What a unit is for: an alias only shares phrases, a slot marks the text it produces as a
mention, and an intent is expanded into examples. -/
inductive UnitKind where
  | shared
  | slot
  | intent
deriving DecidableEq, Repr, Hashable

namespace UnitKind

/-- The word for a kind in templates, reports and messages. -/
def label : UnitKind → String
  | shared => "alias"
  | slot => "slot"
  | intent => "intent"

/-- The kind written with a word, if any. -/
def ofLabel? (text : String) : Option UnitKind :=
  [shared, slot, intent].find? (·.label = text)

theorem ofLabel?_label (kind : UnitKind) : ofLabel? kind.label = some kind := by
  cases kind <;> decide

/-- Aliases come first, then slots, then intents. -/
def rank : UnitKind → Nat
  | shared => 0
  | slot => 1
  | intent => 2

theorem rank_injective {a b : UnitKind} (h : a.rank = b.rank) : a = b := by
  cases a <;> cases b <;> simp_all [rank]

instance : Ord UnitKind := ⟨compareOn rank⟩

instance : TransOrd UnitKind := inferInstanceAs (TransCmp (compareOn rank))

instance : LawfulEqOrd UnitKind where
  eq_of_compare h := rank_injective (LawfulEqOrd.eq_of_compare (show compareOn rank _ _ = .eq from h))

end UnitKind

/-- The identity of a unit: a name is taken at most once in each kind. -/
structure UnitKey where
  kind : UnitKind
  name : String
deriving DecidableEq, Repr, Hashable

namespace UnitKey

/-- How messages name a unit. -/
def describe (key : UnitKey) : String := s!"{key.kind.label} '{key.name}'"

instance : Ord UnitKey := ⟨compareLex (compareOn kind) (compareOn name)⟩

instance : TransOrd UnitKey :=
  inferInstanceAs (TransCmp (compareLex (compareOn kind) (compareOn name)))

instance : LawfulEqOrd UnitKey where
  eq_of_compare {a b} h := by
    obtain ⟨hk, hn⟩ := compareLex_eq_eq.mp h
    have hk : a.kind = b.kind := LawfulEqOrd.eq_of_compare hk
    have hn : a.name = b.name := LawfulEqOrd.eq_of_compare hn
    cases a; cases b; simp_all

end UnitKey

/-- A pool of rules: the default pool of a unit, or the pool of one of its variations. -/
structure PoolKey where
  unit : UnitKey
  variation : Option String
deriving DecidableEq, Repr, Hashable

namespace PoolKey

instance : Ord PoolKey := ⟨compareLex (compareOn unit) (compareOn variation)⟩

instance : TransOrd PoolKey :=
  inferInstanceAs (TransCmp (compareLex (compareOn unit) (compareOn variation)))

instance : LawfulEqOrd PoolKey where
  eq_of_compare {a b} h := by
    obtain ⟨hu, hv⟩ := compareLex_eq_eq.mp h
    have hu : a.unit = b.unit := LawfulEqOrd.eq_of_compare hu
    have hv : a.variation = b.variation := LawfulEqOrd.eq_of_compare hv
    cases a; cases b; simp_all

end PoolKey

end Phrasebook
