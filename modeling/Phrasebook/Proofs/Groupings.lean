import Mathlib.Data.Multiset.Fold

/-! Values that are put together two parts at a time, in any order and with any brackets. Where the
operation is commutative and associative and the start changes nothing, only the values count. -/

namespace Phrasebook

/-- An order and a bracketing in which items are put together. A part may have no items. -/
inductive Grouping (α : Type) where
  | nothing
  | single (item : α)
  | both (first second : Grouping α)

namespace Grouping

variable {α β : Type}

/-- The items that are put together, without their order. -/
def items : Grouping α → Multiset α
  | nothing => 0
  | single item => {item}
  | both first second => first.items + second.items

/-- Puts the values of the items together as the grouping says. -/
def combine (op : β → β → β) (start : β) (value : α → β) : Grouping α → β
  | nothing => start
  | single item => value item
  | both first second => op (first.combine op start value) (second.combine op start value)

/-- Every grouping of the same items comes to the same. -/
theorem combine_eq_fold {op : β → β → β} [Std.Commutative op] [Std.Associative op] {start : β}
    (hstart : ∀ b, op b start = b) (value : α → β) (grouping : Grouping α) :
    grouping.combine op start value = (grouping.items.map value).fold op start := by
  induction grouping with
  | nothing => rfl
  | single item =>
    rw [items, Multiset.map_singleton, Multiset.fold_singleton, hstart]
    rfl
  | both first second ihfirst ihsecond =>
    rw [combine, ihfirst, ihsecond, items, Multiset.map_add, ← Multiset.fold_add op, hstart]

end Grouping

end Phrasebook
