import Mathlib.Data.Set.Finite.Basic
import Mathlib.Order.WellFounded
import Phrasebook.Proofs.InDegrees
import Phrasebook.Proofs.Isolation

/-! The order of the units of a template. In the graph of references a unit refers to another just as
it does in the template. The order found is the least of all orders, and what cannot be placed is what
refers to a cycle, directly or through others. -/

namespace Phrasebook

open Std Relation

/-- Where each item has another of the items before it, every item is behind a cycle. -/
theorem exists_cycle_of_forall_exists {α : Type} {r : α → α → Prop} {items : List α}
    (h : ∀ user ∈ items, ∃ used ∈ items, r used user) {item : α} (hitem : item ∈ items) :
    ∃ start, TransGen r start start ∧ ReflTransGen r start item := by
  by_contra hnone
  -- The items before this one are finitely many, and without a cycle one of them would be first.
  let Before := {other : α // other ∈ items ∧ ReflTransGen r other item}
  let chain : Before → Before → Prop := fun first second => TransGen r first.val second.val
  have : Finite Before :=
    Set.Finite.to_subtype ((List.finite_toSet items).subset fun _ hbefore => hbefore.1)
  have : IsTrans Before chain := ⟨fun _ _ _ => TransGen.trans⟩
  have : Std.Irrefl chain := ⟨fun other hself => hnone ⟨other.val, hself, other.property.2⟩⟩
  obtain ⟨⟨first, hmem, hbefore⟩, -, hfirst⟩ :=
    (Finite.wellFounded_of_trans_of_irrefl chain).has_min Set.univ ⟨⟨item, hitem, .refl⟩, trivial⟩
  obtain ⟨used, hused, hr⟩ := h first hmem
  exact hfirst ⟨used, hused, .head hr hbefore⟩ trivial (.single hr)

theorem acc_of_reflTransGen {α : Type} {r : α → α → Prop} {first last : α}
    (h : ReflTransGen r first last) (hacc : Acc r last) : Acc r first := by
  induction h using ReflTransGen.head_induction_on with
  | refl => exact hacc
  | head hr _ ih => exact ih.inv hr

namespace ReferenceGraph

/-- A report has the order of all units, or else the units left. -/
theorem summary_cases {graph : ReferenceGraph} (hclosed : graph.Closed) :
    ((graph.arrange graph.nodes).2 = [] ∧ graph.summary.cycle? = none ∧
      graph.summary.order? = some (graph.arrange graph.nodes).1) ∨
    ((graph.arrange graph.nodes).2 ≠ [] ∧ graph.summary.order? = none ∧
      graph.summary.cycle? = some (graph.arrange graph.nodes).2) := by
  unfold summary Summary.order? Summary.cycle?
  rw [sort_eq hclosed]
  by_cases hleft : (graph.arrange graph.nodes).2 = []
  · exact .inl ⟨hleft, by simp [hleft], by simp [hleft]⟩
  · exact .inr ⟨hleft, by simp [hleft], by simp [hleft]⟩

/-! ### What the graph of a template holds -/

/-- The second unit is one of the added ones, and refers to the first. -/
def LinkedIn (added : List Definition) (used user : UnitKey) : Prop :=
  ∃ definition ∈ added, definition.key = user ∧ ∃ ref ∈ definition.references, ref.target = used

/-- The graph is that of the units that were added. -/
structure Holds (added : List Definition) (graph : ExtTreeMap UnitKey (ExtTreeSet UnitKey)) :
    Prop where
  mem_iff : ∀ unit, unit ∈ graph ↔ ∃ definition ∈ added,
    definition.key = unit ∨ ∃ ref ∈ definition.references, ref.target = unit
  mem_users : ∀ used user, user ∈ graph[used]?.getD ∅ ↔ LinkedIn added used user

variable {added : List Definition} {graph : ExtTreeMap UnitKey (ExtTreeSet UnitKey)}
  {definition : Definition} {user used unit : UnitKey}

theorem mem_addEdge : unit ∈ ofRegistry.addEdge user graph used ↔ used = unit ∨ unit ∈ graph := by
  unfold ofRegistry.addEdge
  rw [ExtTreeMap.mem_iff_isSome_getElem?, ExtTreeMap.getElem?_alter,
    ExtTreeMap.mem_iff_isSome_getElem?]
  simp only [Std.compare_eq_iff_eq]
  split
  · next hsame => simp [hsame]
  · next hother => simp [hother]

theorem mem_users_addEdge {node other : UnitKey} :
    other ∈ (ofRegistry.addEdge user graph used)[node]?.getD ∅ ↔
      used = node ∧ user = other ∨ other ∈ graph[node]?.getD ∅ := by
  unfold ofRegistry.addEdge
  rw [ExtTreeMap.getElem?_alter]
  simp only [Std.compare_eq_iff_eq]
  split
  · next hsame =>
    subst hsame
    rw [Option.getD_some, ExtTreeSet.mem_insert, Std.compare_eq_iff_eq, and_iff_right rfl]
  · next hother => simp [hother]

theorem mem_foldl_addEdge {targets : List UnitKey} :
    unit ∈ targets.foldl (ofRegistry.addEdge user) graph ↔ unit ∈ targets ∨ unit ∈ graph := by
  induction targets generalizing graph with
  | nil => simp
  | cons first rest ih =>
    rw [List.foldl_cons, ih, mem_addEdge, List.mem_cons]
    tauto

theorem mem_users_foldl_addEdge {targets : List UnitKey} {node other : UnitKey} :
    other ∈ (targets.foldl (ofRegistry.addEdge user) graph)[node]?.getD ∅ ↔
      node ∈ targets ∧ user = other ∨ other ∈ graph[node]?.getD ∅ := by
  induction targets generalizing graph with
  | nil => simp
  | cons first rest ih =>
    rw [List.foldl_cons, ih, mem_users_addEdge, List.mem_cons]
    tauto

theorem mem_targets : used ∈ (ExtTreeSet.ofList (definition.references.map (·.target))).toList ↔
    ∃ ref ∈ definition.references, ref.target = used := by
  rw [ExtTreeSet.mem_toList, ExtTreeSet.mem_ofList, List.contains_iff_mem, List.mem_map]

theorem Holds.addUnit (h : Holds added graph) (definition : Definition) :
    Holds (added ++ [definition]) (ofRegistry.addUnit graph definition) where
  mem_iff unit := by
    unfold ofRegistry.addUnit
    dsimp only
    rw [mem_foldl_addEdge, mem_targets, ExtTreeMap.mem_insertIfNew, Std.compare_eq_iff_eq,
      h.mem_iff]
    simp only [List.mem_append, List.mem_singleton, or_and_right, exists_or, exists_eq_left]
    rw [or_comm, or_assoc, or_left_comm]
  mem_users used user := by
    have hkept : (graph.insertIfNew definition.key ∅)[used]?.getD ∅ = graph[used]?.getD ∅ := by
      rw [ExtTreeMap.getElem?_insertIfNew]
      split
      · next hnew => rw [← Std.compare_eq_iff_eq.mp hnew.1, ExtTreeMap.getElem?_eq_none hnew.2]; rfl
      · rfl
    unfold ofRegistry.addUnit LinkedIn
    dsimp only
    rw [mem_users_foldl_addEdge, mem_targets, hkept, h.mem_users]
    unfold LinkedIn
    simp only [List.mem_append, List.mem_singleton, or_and_right, exists_or, exists_eq_left]
    rw [and_comm, or_comm]

theorem Holds.foldl_addUnit (h : Holds added graph) (units : List Definition) :
    Holds (added ++ units) (units.foldl ofRegistry.addUnit graph) := by
  induction units generalizing added graph with
  | nil => simpa using h
  | cons definition rest ih =>
    rw [List.append_cons]
    exact ih (h.addUnit definition)

theorem holds_ofRegistry (registry : Registry) :
    Holds registry.units (ofRegistry registry).users := by
  have hempty : Holds [] ∅ := ⟨by simp, by simp [LinkedIn]⟩
  exact hempty.foldl_addUnit registry.units

theorem refers_ofRegistry {registry : Registry} {used user : UnitKey} :
    (ofRegistry registry).Refers used user ↔ registry.Refers used user := by
  refine ((holds_ofRegistry registry).mem_users used user).trans ?_
  constructor
  · rintro ⟨definition, hdefinition, rfl, hrefers⟩
    exact ⟨definition, Registry.mem_units_iff.mp hdefinition, hrefers⟩
  · rintro ⟨definition, hdefinition, hrefers⟩
    exact ⟨definition, Registry.mem_units_of_get? hdefinition, Registry.key_of_get? hdefinition,
      hrefers⟩

theorem closed_ofRegistry (registry : Registry) : (ofRegistry registry).Closed := by
  intro used user hrefers
  obtain ⟨definition, hdefinition, hkey, -⟩ :=
    ((holds_ofRegistry registry).mem_users used user).mp hrefers
  exact ExtTreeMap.mem_keys.mpr
    (((holds_ofRegistry registry).mem_iff user).mpr ⟨definition, hdefinition, .inl hkey⟩)

end ReferenceGraph

/-! ### The order found -/

namespace Registry

/-- The unit is declared, or a declared unit refers to it. -/
def Named (registry : Registry) (unit : UnitKey) : Prop :=
  (∃ definition, registry.get? unit = some definition) ∨ ∃ user, registry.Refers unit user

/-- Every named unit once, behind all units that it refers to. -/
structure Orders (registry : Registry) (order : List UnitKey) : Prop where
  nodup : order.Nodup
  mem_iff : ∀ unit, unit ∈ order ↔ registry.Named unit
  behind : ∀ before user after, order = before ++ user :: after →
    ∀ used, registry.Refers used user → used ∈ before

/-- The unit is on a cycle, or refers to one, directly or through others. -/
def ReachesCycle (registry : Registry) (unit : UnitKey) : Prop :=
  ∃ start, TransGen registry.Refers start start ∧ ReflTransGen registry.Refers start unit

variable {registry : Registry}

theorem Refers.named {used user : UnitKey} (h : registry.Refers used user) :
    registry.Named user := by
  obtain ⟨definition, hdefinition, -⟩ := h
  exact .inl ⟨definition, hdefinition⟩

theorem ReachesCycle.named {unit : UnitKey} (h : registry.ReachesCycle unit) :
    registry.Named unit := by
  obtain ⟨start, hcycle, hchain⟩ := h
  obtain ⟨user, -, hrefers⟩ := TransGen.tail'_iff.mp (hcycle.trans_left hchain)
  exact hrefers.named

theorem mem_nodes_ofRegistry {unit : UnitKey} :
    unit ∈ (ReferenceGraph.ofRegistry registry).nodes ↔ registry.Named unit := by
  unfold ReferenceGraph.nodes
  rw [ExtTreeMap.mem_keys, (ReferenceGraph.holds_ofRegistry registry).mem_iff]
  constructor
  · rintro ⟨definition, hdefinition, rfl | hrefers⟩
    · exact .inl ⟨definition, mem_units_iff.mp hdefinition⟩
    · exact .inr ⟨definition.key, definition, mem_units_iff.mp hdefinition, hrefers⟩
  · rintro (⟨definition, hdefinition⟩ | ⟨user, definition, hdefinition, hrefers⟩)
    · exact ⟨definition, mem_units_of_get? hdefinition, .inl (key_of_get? hdefinition)⟩
    · exact ⟨definition, mem_units_of_get? hdefinition, .inr hrefers⟩

theorem heeds_nodes_iff {order : List UnitKey} :
    (ReferenceGraph.ofRegistry registry).Heeds (ReferenceGraph.ofRegistry registry).nodes order ↔
      ∀ before user after, order = before ++ user :: after →
        ∀ used, registry.Refers used user → used ∈ before := by
  unfold ReferenceGraph.Heeds
  simp only [ReferenceGraph.refers_ofRegistry, mem_nodes_ofRegistry]
  refine ⟨fun h before user after horder used hrefers => ?_,
    fun h before user after horder used _ hrefers => h before user after horder used hrefers⟩
  exact h before user after horder used (.inr ⟨user, hrefers⟩) hrefers

/-- What stands behind all that it refers to is not behind a cycle. -/
theorem acc_of_behind {order : List UnitKey}
    (hbehind : ∀ before user after, order = before ++ user :: after →
      ∀ used, registry.Refers used user → used ∈ before)
    {user : UnitKey} (huser : user ∈ order) : Acc registry.Refers user := by
  obtain ⟨before, after, horder⟩ := List.append_of_mem huser
  induction hplace : before.length using Nat.strongRecOn generalizing before user after with
  | ind place ih =>
    refine ⟨user, fun used hrefers => ?_⟩
    have hmem := hbehind before user after horder used hrefers
    obtain ⟨earlier, later, rfl⟩ := List.append_of_mem hmem
    rw [List.append_assoc, List.cons_append] at horder
    refine ih earlier.length ?_ (horder ▸ by simp) earlier _ horder rfl
    simp at hplace
    omega

theorem Orders.acyclic {order : List UnitKey} (h : registry.Orders order) : registry.Acyclic := by
  intro unit hcycle
  have hnamed := ReachesCycle.named ⟨unit, hcycle, .refl⟩
  exact not_acc_of_transGen hcycle (acc_of_behind h.behind ((h.mem_iff unit).mpr hnamed))

/-- What cannot be placed is what reaches a cycle. -/
theorem mem_left_iff {unit : UnitKey} :
    unit ∈ ((ReferenceGraph.ofRegistry registry).arrange
        (ReferenceGraph.ofRegistry registry).nodes).2 ↔ registry.ReachesCycle unit := by
  constructor
  · intro hleft
    refine exists_cycle_of_forall_exists (fun user huser => ?_) hleft
    simpa only [ReferenceGraph.refers_ofRegistry] using ReferenceGraph.exists_left _ _ user huser
  · intro h
    have hnode := mem_nodes_ofRegistry.mpr h.named
    have hperm := ReferenceGraph.arrange_perm (ReferenceGraph.ofRegistry registry)
      (ReferenceGraph.ofRegistry registry).nodes
    rcases List.mem_append.mp (hperm.mem_iff.mpr hnode) with hplaced | hleft
    · obtain ⟨start, hcycle, hchain⟩ := h
      have hacc := acc_of_behind (heeds_nodes_iff.mp (ReferenceGraph.arrange_heeds _ _)) hplaced
      exact (not_acc_of_transGen hcycle (acc_of_reflTransGen hchain hacc)).elim
    · exact hleft

/-- All units can be placed exactly where there is no cycle. -/
theorem left_eq_nil_iff : ((ReferenceGraph.ofRegistry registry).arrange
    (ReferenceGraph.ofRegistry registry).nodes).2 = [] ↔ registry.Acyclic := by
  rw [List.eq_nil_iff_forall_not_mem]
  simp only [mem_left_iff]
  refine ⟨fun h unit hcycle => h unit ⟨unit, hcycle, .refl⟩, fun h unit => ?_⟩
  rintro ⟨start, hcycle, -⟩
  exact h start hcycle

theorem orders_of_left_eq_nil (h : ((ReferenceGraph.ofRegistry registry).arrange
      (ReferenceGraph.ofRegistry registry).nodes).2 = []) :
    registry.Orders ((ReferenceGraph.ofRegistry registry).arrange
      (ReferenceGraph.ofRegistry registry).nodes).1 := by
  have hperm := ReferenceGraph.arrange_perm (ReferenceGraph.ofRegistry registry)
    (ReferenceGraph.ofRegistry registry).nodes
  rw [h, List.append_nil] at hperm
  refine ⟨hperm.nodup_iff.mpr ExtTreeMap.nodup_keys, fun unit => ?_,
    heeds_nodes_iff.mp (ReferenceGraph.arrange_heeds _ _)⟩
  rw [hperm.mem_iff, mem_nodes_ofRegistry]

theorem Orders.perm_nodes {order : List UnitKey} (h : registry.Orders order) :
    order.Perm (ReferenceGraph.ofRegistry registry).nodes := by
  refine (List.perm_ext_iff_of_nodup h.nodup ExtTreeMap.nodup_keys).mpr fun unit => ?_
  rw [h.mem_iff, ← mem_nodes_ofRegistry, ReferenceGraph.nodes]

theorem orders_of_summary {order : List UnitKey}
    (h : (ReferenceGraph.ofRegistry registry).summary.order? = some order) :
    registry.Orders order := by
  rcases ReferenceGraph.summary_cases (ReferenceGraph.closed_ofRegistry registry) with
    ⟨hleft, -, horder⟩ | ⟨-, horder, -⟩
  · obtain rfl := Option.some.inj (horder.symm.trans h)
    exact orders_of_left_eq_nil hleft
  · simp [horder] at h

/-- The report on the references of a template. It has an order of the units exactly where no unit
refers to itself, directly or through others, and this order comes before all others; where some unit
does, the report has all units that reach a cycle, each once and in the order of keys. -/
theorem summary_ofRegistry (registry : Registry) :
    let summary := (ReferenceGraph.ofRegistry registry).summary
    (summary.order?.isSome = true ↔ registry.Acyclic) ∧
    (∀ order, summary.order? = some order → registry.Orders order ∧
      ∀ other, registry.Orders other →
        order = other ∨ List.Lex (fun a b => compare a b = .lt) order other) ∧
    (summary.cycle?.isSome = true ↔ ¬registry.Acyclic) ∧
    (∀ left, summary.cycle? = some left → left.Pairwise (fun a b => compare a b = .lt) ∧
      ∀ unit, unit ∈ left ↔ registry.ReachesCycle unit) := by
  dsimp only
  have hsorted : (ReferenceGraph.ofRegistry registry).nodes.Pairwise
      fun a b => compare a b = .lt := ExtTreeMap.ordered_keys
  rcases ReferenceGraph.summary_cases (ReferenceGraph.closed_ofRegistry registry) with
    ⟨hleft, hcycle, horder⟩ | ⟨hleft, horder, hcycle⟩
  · have hacyclic := left_eq_nil_iff.mp hleft
    refine ⟨by simp [horder, hacyclic], fun order hsome => ?_, by simp [hcycle, hacyclic], ?_⟩
    · obtain rfl := Option.some.inj (horder.symm.trans hsome)
      refine ⟨orders_of_left_eq_nil hleft, fun other hother => ?_⟩
      have hheeds := heeds_nodes_iff.mpr hother.behind
      exact ReferenceGraph.arrange_least hsorted hother.perm_nodes hheeds
    · simp [hcycle]
  · have hcyclic := mt left_eq_nil_iff.mpr hleft
    refine ⟨by simp [horder, hcyclic], by simp [horder], by simp [hcycle, hcyclic], ?_⟩
    intro left hsome
    obtain rfl := Option.some.inj (hcycle.symm.trans hsome)
    exact ⟨hsorted.sublist (ReferenceGraph.arrange_sublist _ _), fun unit => mem_left_iff⟩

end Registry

/-! The two intents that refer to each other, and one that refers to them and to a slot that is not
declared. -/

namespace Reluctance

def plead : Definition where
  key := ⟨.intent, "plead"⟩
  rules := [{ contents := [.reference { target := beg.key },
    .reference { target := ⟨.slot, "person"⟩ }] }]

def pleading : Registry := (Registry.ofUnits [ask, beg, plead]).toOption.getD .empty

example : (ReferenceGraph.ofRegistry pleading).summary.cycle? =
    some [ask.key, beg.key, plead.key] := by decide +kernel

end Reluctance

end Phrasebook
