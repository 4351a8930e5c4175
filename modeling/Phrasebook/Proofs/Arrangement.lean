import Mathlib.Data.List.Perm.Basic
import Phrasebook.ReferenceGraph

/-! The order of the nodes of a graph by its definition: always the first node is placed that refers to
none of those left. The order found is the least of all orders, and each node left refers to a node
left. -/

namespace Phrasebook

open Std

namespace ReferenceGraph

/-- The second node refers to the first. -/
def Refers (graph : ReferenceGraph) (used user : UnitKey) : Prop :=
  user ∈ graph.users[used]?.getD ∅

instance (graph : ReferenceGraph) (used user : UnitKey) : Decidable (graph.Refers used user) :=
  inferInstanceAs (Decidable (user ∈ graph.users[used]?.getD ∅))

/-- Whether a node refers to none of the waiting nodes. -/
def isReady (graph : ReferenceGraph) (waiting : List UnitKey) (unit : UnitKey) : Bool :=
  waiting.all fun used => !graph.Refers used unit

/-- Places the first ready node until none is: the placed nodes in order, and the nodes left. -/
def arrange (graph : ReferenceGraph) (waiting : List UnitKey) : List UnitKey × List UnitKey :=
  match h : waiting.find? (graph.isReady waiting) with
  | none => ([], waiting)
  | some unit =>
    have : (waiting.erase unit).length < waiting.length := by
      have hmem := List.mem_of_find?_eq_some h
      have := List.length_pos_of_mem hmem
      rw [List.length_erase_of_mem hmem]
      omega
    let (placed, left) := graph.arrange (waiting.erase unit)
    (unit :: placed, left)
termination_by waiting.length

/-- Each unit in the order stands behind all units of the given ones that it refers to. -/
def Heeds (graph : ReferenceGraph) (given order : List UnitKey) : Prop :=
  ∀ before user after, order = before ++ user :: after →
    ∀ used ∈ given, graph.Refers used user → used ∈ before

variable {graph : ReferenceGraph} {waiting : List UnitKey} {unit : UnitKey}

theorem isReady_iff :
    graph.isReady waiting unit = true ↔ ∀ used ∈ waiting, ¬graph.Refers used unit := by
  unfold isReady
  simp

theorem arrange_perm (graph : ReferenceGraph) (waiting : List UnitKey) :
    ((graph.arrange waiting).1 ++ (graph.arrange waiting).2).Perm waiting := by
  fun_induction arrange graph waiting with
  | case1 waiting h => exact .refl _
  | case2 waiting unit h _ placed left harrange ih =>
    rw [harrange] at ih
    exact (ih.cons unit).trans (List.perm_cons_erase (List.mem_of_find?_eq_some h)).symm

theorem arrange_sublist (graph : ReferenceGraph) (waiting : List UnitKey) :
    (graph.arrange waiting).2.Sublist waiting := by
  fun_induction arrange graph waiting with
  | case1 waiting h => exact .refl _
  | case2 waiting unit h _ placed left harrange ih =>
    rw [harrange] at ih
    exact ih.trans List.erase_sublist

theorem arrange_heeds (graph : ReferenceGraph) (waiting : List UnitKey) :
    graph.Heeds waiting (graph.arrange waiting).1 := by
  fun_induction arrange graph waiting with
  | case1 waiting h =>
    intro before user after hsplit
    simp at hsplit
  | case2 waiting unit h _ placed left harrange ih =>
    rw [harrange] at ih
    intro before user after hsplit used hused hrefers
    rcases List.cons_eq_append_iff.mp hsplit with ⟨rfl, hunit⟩ | ⟨rest, rfl, hplaced⟩
    · obtain ⟨rfl, rfl⟩ := List.cons.inj hunit
      exact (isReady_iff.mp (List.find?_some h) used hused hrefers).elim
    · by_cases hsame : used = unit
      · exact hsame ▸ List.mem_cons_self
      · have hwaits : used ∈ waiting.erase unit := (List.mem_erase_of_ne hsame).mpr hused
        exact List.mem_cons_of_mem _ (ih rest user after hplaced used hwaits hrefers)

/-- Each unit left refers to a unit left. -/
theorem exists_left (graph : ReferenceGraph) (waiting : List UnitKey) :
    ∀ user ∈ (graph.arrange waiting).2, ∃ used ∈ (graph.arrange waiting).2,
      graph.Refers used user := by
  fun_induction arrange graph waiting with
  | case1 waiting h =>
    intro user huser
    have hwaits : ¬graph.isReady waiting user = true := List.find?_eq_none.mp h user huser
    rw [isReady_iff] at hwaits
    push Not at hwaits
    exact hwaits
  | case2 waiting unit h _ placed left harrange ih =>
    rw [harrange] at ih
    exact ih

/-- What is found first in a sorted list comes before all else that could be found. -/
theorem eq_or_lt_of_find? {waiting : List UnitKey} {p : UnitKey → Bool} {other : UnitKey}
    (hsorted : waiting.Pairwise fun a b => compare a b = .lt)
    (h : waiting.find? p = some unit) (hother : other ∈ waiting) (hp : p other = true) :
    unit = other ∨ compare unit other = .lt := by
  obtain ⟨-, skipped, later, rfl, hskipped⟩ := List.find?_eq_some_iff_append.mp h
  rcases List.mem_append.mp hother with hmem | hmem
  · simpa [hp] using hskipped other hmem
  rcases List.mem_cons.mp hmem with heq | hlater
  · exact .inl heq.symm
  · exact .inr (List.rel_of_pairwise_cons (List.pairwise_append.mp hsorted).2.1 hlater)

theorem Heeds.isReady {first : UnitKey} {rest : List UnitKey}
    (h : graph.Heeds waiting (first :: rest)) : graph.isReady waiting first = true :=
  isReady_iff.mpr fun used hused hrefers => List.not_mem_nil (h [] first rest rfl used hused hrefers)

theorem Heeds.tail {first : UnitKey} {rest : List UnitKey} (h : graph.Heeds waiting (first :: rest))
    (hnodup : waiting.Nodup) : graph.Heeds (waiting.erase first) rest := by
  intro before user after hsplit used hused hrefers
  have hbefore : used ∈ first :: before :=
    h (first :: before) user after (by rw [hsplit, List.cons_append]) used
      (List.mem_of_mem_erase hused) hrefers
  have hne : used ≠ first := fun heq => hnodup.not_mem_erase (heq ▸ hused)
  exact (List.mem_cons.mp hbefore).resolve_left hne

/-- What is placed comes before every other order of the units. -/
theorem arrange_least {waiting : List UnitKey}
    (hsorted : waiting.Pairwise fun a b => compare a b = .lt) {other : List UnitKey}
    (hperm : other.Perm waiting) (hheeds : graph.Heeds waiting other) :
    (graph.arrange waiting).1 = other ∨
      List.Lex (fun a b => compare a b = .lt) (graph.arrange waiting).1 other := by
  fun_induction arrange graph waiting generalizing other with
  | case1 waiting h =>
    cases other with
    | nil => exact .inl rfl
    | cons => exact .inr .nil
  | case2 waiting unit h _ placed left harrange ih =>
    rw [harrange] at ih
    have hunit := List.mem_of_find?_eq_some h
    obtain ⟨first, rest, rfl⟩ : ∃ first rest, other = first :: rest :=
      List.exists_cons_of_ne_nil (List.ne_nil_of_mem (hperm.mem_iff.mpr hunit))
    have hfirst : first ∈ waiting := hperm.mem_iff.mp List.mem_cons_self
    rcases eq_or_lt_of_find? hsorted h hfirst hheeds.isReady with rfl | hless
    · have hrest : rest.Perm (waiting.erase unit) :=
        (hperm.trans (List.perm_cons_erase hunit)).cons_inv
      have hnodup : waiting.Nodup := hsorted.imp fun hless heq => by simp [heq] at hless
      rcases ih (hsorted.sublist List.erase_sublist) hrest (hheeds.tail hnodup) with heq | hlex
      · exact .inl (congrArg (unit :: ·) heq)
      · exact .inr (.cons hlex)
    · exact .inr (.rel hless)

end ReferenceGraph

end Phrasebook
