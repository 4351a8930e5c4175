import Mathlib.Data.List.Count
import Mathlib.Data.List.Perm.Basic
import Phrasebook.Proofs.Arrangement

/-! Sorting by counting down. Between two rounds the number kept for each node is that of the units
that it refers to among those not placed yet, and the nodes kept ready are those with no such unit. So
each round places the node that the order by definition places next, and where no node is ready, the
nodes with a number above 0 are those left. -/

namespace Phrasebook

open Std

namespace ReferenceGraph

variable {graph : ReferenceGraph} {waiting : List UnitKey} {unit used user : UnitKey}

/-- Every unit that refers to another is a node. -/
def Closed (graph : ReferenceGraph) : Prop :=
  ∀ used user, graph.Refers used user → user ∈ graph.nodes

/-- How many of the waiting units a node refers to. -/
def degree (graph : ReferenceGraph) (waiting : List UnitKey) (user : UnitKey) : Nat :=
  waiting.countP fun used => graph.Refers used user

theorem degree_eq_zero_iff : graph.degree waiting user = 0 ↔ graph.isReady waiting user = true := by
  unfold degree
  rw [List.countP_eq_zero, isReady_iff]
  simp

theorem degree_pos (hused : used ∈ waiting) (h : graph.Refers used user) :
    0 < graph.degree waiting user :=
  List.countP_pos_iff.mpr ⟨used, hused, by simpa using h⟩

theorem degree_erase (hused : used ∈ waiting) : graph.degree (waiting.erase used) user =
    graph.degree waiting user - if graph.Refers used user then 1 else 0 := by
  unfold degree
  rw [List.countP_erase]
  simp [hused]

theorem nodup_of_ordered {units : List UnitKey}
    (h : units.Pairwise fun a b => compare a b = .lt) : units.Nodup :=
  h.imp fun hless heq => by simp [heq] at hless

theorem nodup_toList (units : ExtTreeSet UnitKey) : units.toList.Nodup :=
  nodup_of_ordered ExtTreeSet.ordered_toList

/-! ### The numbers before the first round -/

theorem getElem?_count (degrees : ExtTreeMap UnitKey Nat) (user unit : UnitKey) :
    (inDegrees.count degrees user)[unit]? =
      if user = unit then some (degrees[unit]?.getD 0 + 1) else degrees[unit]? := by
  unfold inDegrees.count
  rw [ExtTreeMap.getElem?_alter]
  simp only [Std.compare_eq_iff_eq]
  split
  · next h => rw [h]
  · rfl

theorem getElem?_foldl_count {users : List UnitKey} (hnodup : users.Nodup)
    (degrees : ExtTreeMap UnitKey Nat) (unit : UnitKey) :
    (users.foldl inDegrees.count degrees)[unit]? =
      if unit ∈ users then some (degrees[unit]?.getD 0 + 1) else degrees[unit]? := by
  induction users generalizing degrees with
  | nil => simp
  | cons first rest ih =>
    obtain ⟨hfirst, hrest⟩ := List.nodup_cons.mp hnodup
    rw [List.foldl_cons, ih hrest, getElem?_count]
    by_cases hsame : first = unit
    · subst hsame
      simp [hfirst]
    · simp [hsame, Ne.symm hsame]

/-- Where only known units are met, each is counted once for each set that it is in. -/
theorem getElem?_foldl_entries {entries : List (UnitKey × ExtTreeSet UnitKey)}
    {degrees : ExtTreeMap UnitKey Nat} (h : ∀ entry ∈ entries, unit ∈ entry.2 → unit ∈ degrees) :
    (entries.foldl (fun degrees entry => entry.2.toList.foldl inDegrees.count degrees)
      degrees)[unit]? =
      degrees[unit]?.map (· + entries.countP fun entry => decide (unit ∈ entry.2)) := by
  induction entries generalizing degrees with
  | nil => simp
  | cons entry rest ih =>
    obtain ⟨hentry, hrest⟩ := List.forall_mem_cons.mp h
    have hcount : (entry.2.toList.foldl inDegrees.count degrees)[unit]? =
        degrees[unit]?.map (· + if unit ∈ entry.2 then 1 else 0) := by
      rw [getElem?_foldl_count (nodup_toList entry.2)]
      simp only [ExtTreeSet.mem_toList]
      split
      · next hmem => simp [ExtTreeMap.getElem?_eq_some_getElem (hentry hmem)]
      · simp
    rw [List.foldl_cons, ih, hcount, Option.map_map, List.countP_cons]
    · congr 1
      funext degree
      simp only [Function.comp_apply, decide_eq_true_eq]
      omega
    · intro other hother hmem
      rw [ExtTreeMap.mem_iff_isSome_getElem?, hcount, Option.isSome_map,
        ← ExtTreeMap.mem_iff_isSome_getElem?]
      exact hrest other hother hmem

theorem getElem?_inDegrees (hclosed : graph.Closed) (unit : UnitKey) :
    graph.inDegrees[unit]? =
      if unit ∈ graph.nodes then some (graph.degree graph.nodes unit) else none := by
  have hrefers : ∀ entry ∈ graph.users.toList, graph.Refers entry.1 unit ↔ unit ∈ entry.2 := by
    intro entry hentry
    unfold Refers
    rw [ExtTreeMap.mem_toList_iff_getElem?_eq_some.mp hentry, Option.getD_some]
  have hdegree : graph.degree graph.nodes unit =
      graph.users.toList.countP fun entry => decide (unit ∈ entry.2) := by
    unfold degree nodes
    rw [← ExtTreeMap.map_fst_toList_eq_keys, List.countP_map]
    exact List.countP_congr fun entry hentry => by simpa using hrefers entry hentry
  unfold inDegrees
  rw [getElem?_foldl_entries, hdegree, ExtTreeMap.getElem?_map, Option.map_map]
  · split
    · next hnode =>
      have hmem := ExtTreeMap.mem_keys.mp hnode
      simp [ExtTreeMap.getElem?_eq_some_getElem hmem]
    · next hnode =>
      have hmem := mt ExtTreeMap.mem_keys.mpr hnode
      simp [ExtTreeMap.getElem?_eq_none hmem]
  · intro entry hentry hmem
    rw [ExtTreeMap.mem_map]
    exact ExtTreeMap.mem_keys.mp (hclosed _ _ ((hrefers entry hentry).mpr hmem))

/-! ### One round -/

namespace Sorting

theorem getElem?_degrees_release (sorting : Sorting) (node unit : UnitKey) :
    (sorting.release node).degrees[unit]? =
      if node = unit then sorting.degrees[unit]?.map (· - 1) else sorting.degrees[unit]? := by
  unfold release
  split
  · next hnone =>
    split
    · next hsame => rw [← hsame, hnone, Option.map_none]
    · rfl
  · next degree hdegree =>
    rw [ExtTreeMap.getElem?_insert]
    simp only [Std.compare_eq_iff_eq]
    split
    · next hsame => rw [← hsame, hdegree, Option.map_some]
    · rfl

theorem mem_ready_release {sorting : Sorting} {node unit : UnitKey} :
    unit ∈ (sorting.release node).ready ↔ unit ∈ sorting.ready ∨
      node = unit ∧ ∃ degree, sorting.degrees[unit]? = some degree ∧ degree ≤ 1 := by
  unfold release
  split
  · next hnone =>
    refine (or_iff_left ?_).symm
    rintro ⟨rfl, degree, hdegree, -⟩
    rw [hnone] at hdegree
    contradiction
  · next degree hdegree =>
    dsimp only
    split
    · next hlast =>
      rw [ExtTreeSet.mem_insert, Std.compare_eq_iff_eq, or_comm]
      refine or_congr_right ⟨fun hsame => ⟨hsame, degree, hsame ▸ hdegree, by omega⟩, And.left⟩
    · next hmore =>
      refine (or_iff_left ?_).symm
      rintro ⟨rfl, other, hother, hle⟩
      obtain rfl := Option.some.inj (hdegree.symm.trans hother)
      omega

theorem placed_release (sorting : Sorting) (node : UnitKey) :
    (sorting.release node).placed = sorting.placed := by
  unfold release
  split <;> rfl

variable {users : List UnitKey}

theorem placed_foldl_release (users : List UnitKey) (sorting : Sorting) :
    (users.foldl release sorting).placed = sorting.placed := by
  induction users generalizing sorting with
  | nil => rfl
  | cons first rest ih => rw [List.foldl_cons, ih, placed_release]

theorem getElem?_degrees_foldl_release (hnodup : users.Nodup) (sorting : Sorting)
    (unit : UnitKey) : (users.foldl release sorting).degrees[unit]? =
      if unit ∈ users then sorting.degrees[unit]?.map (· - 1) else sorting.degrees[unit]? := by
  induction users generalizing sorting with
  | nil => simp
  | cons first rest ih =>
    obtain ⟨hfirst, hrest⟩ := List.nodup_cons.mp hnodup
    rw [List.foldl_cons, ih hrest, getElem?_degrees_release]
    by_cases hsame : first = unit
    · subst hsame
      simp [hfirst]
    · simp [hsame, Ne.symm hsame]

theorem mem_ready_foldl_release (hnodup : users.Nodup) {sorting : Sorting} {unit : UnitKey} :
    unit ∈ (users.foldl release sorting).ready ↔ unit ∈ sorting.ready ∨
      unit ∈ users ∧ ∃ degree, sorting.degrees[unit]? = some degree ∧ degree ≤ 1 := by
  induction users generalizing sorting with
  | nil => simp
  | cons first rest ih =>
    obtain ⟨hfirst, hrest⟩ := List.nodup_cons.mp hnodup
    rw [List.foldl_cons, ih hrest, mem_ready_release, getElem?_degrees_release, List.mem_cons]
    by_cases hsame : first = unit
    · subst hsame
      simp [hfirst]
    · simp [hsame, Ne.symm hsame]

theorem mem_users {node unit : UnitKey} :
    unit ∈ (graph.users[node]?.getD ∅).toList ↔ graph.Refers node unit :=
  ExtTreeSet.mem_toList

theorem getElem?_degrees_place (sorting : Sorting) (node unit : UnitKey) :
    (sorting.place graph node).degrees[unit]? =
      sorting.degrees[unit]?.map (· - if graph.Refers node unit then 1 else 0) := by
  unfold place
  dsimp only
  rw [getElem?_degrees_foldl_release (nodup_toList _)]
  simp only [mem_users]
  split <;> simp

theorem mem_ready_place {sorting : Sorting} {node unit : UnitKey} :
    unit ∈ (sorting.place graph node).ready ↔ node ≠ unit ∧ unit ∈ sorting.ready ∨
      graph.Refers node unit ∧ ∃ degree, sorting.degrees[unit]? = some degree ∧ degree ≤ 1 := by
  unfold place
  dsimp only
  rw [mem_ready_foldl_release (nodup_toList _), mem_users, ExtTreeSet.mem_erase, ne_eq,
    Std.compare_eq_iff_eq]

theorem placed_place (sorting : Sorting) (node : UnitKey) :
    (sorting.place graph node).placed.toList = sorting.placed.toList ++ [node] := by
  unfold place
  dsimp only
  rw [placed_foldl_release, Array.toList_push]

/-- Between two rounds: for each node, the number of waiting units that it refers to is kept; ready are
the waiting nodes that refer to none, and so do all that wait no more. -/
structure Tracks (graph : ReferenceGraph) (waiting : List UnitKey) (sorting : Sorting) : Prop where
  degrees_eq : ∀ unit, sorting.degrees[unit]? =
    if unit ∈ graph.nodes then some (graph.degree waiting unit) else none
  mem_ready : ∀ unit, unit ∈ sorting.ready ↔ unit ∈ waiting ∧ graph.isReady waiting unit = true
  settled : ∀ unit ∈ graph.nodes, unit ∉ waiting → graph.degree waiting unit = 0
  sublist : waiting.Sublist graph.nodes

theorem tracks_start (hclosed : graph.Closed) : graph.startSorting.Tracks graph graph.nodes where
  degrees_eq := getElem?_inDegrees hclosed
  mem_ready unit := by
    unfold startSorting
    rw [ExtTreeSet.mem_ofList, List.contains_iff_mem, ExtTreeMap.mem_keys,
      ExtTreeMap.mem_iff_isSome_getElem?, ExtTreeMap.getElem?_filter, getElem?_inDegrees hclosed,
      ← degree_eq_zero_iff]
    split
    · next hnode => simp [hnode, Option.filter]
    · next hnode => simp [hnode]
  settled _ hnode hplaced := (hplaced hnode).elim
  sublist := .refl _

variable {sorting : Sorting}

theorem Tracks.nodup (h : sorting.Tracks graph waiting) : waiting.Nodup :=
  h.sublist.nodup ExtTreeMap.nodup_keys

/-- The first ready node is the one that the order by definition places next. -/
theorem Tracks.head?_eq (h : sorting.Tracks graph waiting) :
    sorting.ready.toList.head? = waiting.find? (graph.isReady waiting) := by
  rw [← ExtTreeSet.min?_eq_head?_toList]
  have hsorted : waiting.Pairwise fun a b => compare a b = .lt :=
    ExtTreeMap.ordered_keys.sublist h.sublist
  cases hfind : waiting.find? (graph.isReady waiting) with
  | none =>
    rw [ExtTreeSet.min?_eq_none_iff, ExtTreeSet.eq_empty_iff_forall_not_mem]
    intro unit hready
    obtain ⟨hwaits, hready⟩ := (h.mem_ready unit).mp hready
    exact List.find?_eq_none.mp hfind unit hwaits hready
  | some unit =>
    rw [ExtTreeSet.min?_eq_some_iff_mem_and_forall]
    refine ⟨(h.mem_ready unit).mpr ⟨List.mem_of_find?_eq_some hfind, List.find?_some hfind⟩,
      fun other hother => ?_⟩
    obtain ⟨hwaits, hready⟩ := (h.mem_ready other).mp hother
    rcases eq_or_lt_of_find? hsorted hfind hwaits hready with rfl | hless
    · simp
    · simp [hless]

theorem Tracks.place (h : sorting.Tracks graph waiting) {node : UnitKey}
    (hready : node ∈ sorting.ready) :
    (sorting.place graph node).Tracks graph (waiting.erase node) := by
  obtain ⟨hwaits, hnone⟩ := (h.mem_ready node).mp hready
  rw [← degree_eq_zero_iff] at hnone
  have hdegree (unit : UnitKey) : graph.degree (waiting.erase node) unit =
      graph.degree waiting unit - if graph.Refers node unit then 1 else 0 := degree_erase hwaits
  constructor
  case degrees_eq =>
    intro unit
    rw [getElem?_degrees_place, h.degrees_eq, hdegree]
    by_cases hnode : unit ∈ graph.nodes <;> simp [hnode]
  case mem_ready =>
    intro unit
    rw [mem_ready_place, h.degrees_eq, h.mem_ready, h.nodup.mem_erase_iff, ← degree_eq_zero_iff,
      ← degree_eq_zero_iff, hdegree]
    by_cases hrefers : graph.Refers node unit
    · -- A unit that refers to the placed one was not ready, and is so if it refers to no other.
      have hpos := degree_pos hwaits hrefers
      have hne : node ≠ unit := fun hsame => by rw [← hsame] at hpos; omega
      rw [if_pos hrefers]
      constructor
      · rintro (⟨-, -, hzero⟩ | ⟨-, degree, hsome, hle⟩)
        · omega
        · split at hsome
          · next hnode =>
            obtain rfl := Option.some.inj hsome
            refine ⟨⟨hne.symm, ?_⟩, by omega⟩
            by_contra hplaced
            have := h.settled unit hnode hplaced
            omega
          · contradiction
      · rintro ⟨⟨-, hunit⟩, hlast⟩
        exact .inr ⟨hrefers, _, if_pos (h.sublist.subset hunit), by omega⟩
    · simp only [hrefers, if_false, false_and, or_false, Nat.sub_zero]
      tauto
  case settled =>
    intro unit hnode hplaced
    rw [hdegree]
    by_cases hsame : unit = node
    · subst hsame
      omega
    · have := h.settled unit hnode fun hmem => hplaced ((List.mem_erase_of_ne hsame).mpr hmem)
      omega
  case sublist => exact List.erase_sublist.trans h.sublist

/-- The rounds place the nodes that the order by definition places, and stop where it does. -/
theorem Tracks.run {rounds : Nat} (h : sorting.Tracks graph waiting)
    (hrounds : waiting.length ≤ rounds) :
    (sorting.run graph rounds).Tracks graph (graph.arrange waiting).2 ∧
      (sorting.run graph rounds).placed.toList =
        sorting.placed.toList ++ (graph.arrange waiting).1 ∧
      (sorting.run graph rounds).ready = ∅ := by
  fun_induction arrange graph waiting generalizing sorting rounds with
  | case1 waiting hfind =>
    have hnone : sorting.ready.toList.head? = none := h.head?_eq.trans hfind
    have hstays : sorting.run graph rounds = sorting := by
      cases rounds with
      | zero => rfl
      | succ rounds => rw [Sorting.run, hnone]
    rw [hstays]
    rw [← ExtTreeSet.min?_eq_head?_toList] at hnone
    exact ⟨h, (List.append_nil _).symm, ExtTreeSet.min?_eq_none_iff.mp hnone⟩
  | case2 waiting unit hfind _ placed left harrange ih =>
    have hfirst : sorting.ready.toList.head? = some unit := h.head?_eq.trans hfind
    have hwaits := List.mem_of_find?_eq_some hfind
    have hready := (h.mem_ready unit).mpr ⟨hwaits, List.find?_some hfind⟩
    cases rounds with
    | zero => exact (List.ne_nil_of_mem hwaits (List.length_eq_zero_iff.mp (by omega))).elim
    | succ rounds =>
      rw [Sorting.run, hfirst]
      dsimp only
      obtain ⟨htracks, hplaced, hempty⟩ := ih (h.place hready)
        (show (waiting.erase unit).length ≤ rounds by rw [List.length_erase_of_mem hwaits]; omega)
      rw [harrange] at htracks hplaced
      rw [placed_place, List.append_assoc] at hplaced
      exact ⟨htracks, hplaced, hempty⟩

/-- In the end, the nodes with a number above 0 are those left. -/
theorem Tracks.keys_eq {left : List UnitKey} (h : sorting.Tracks graph left)
    (hleft : ∀ user ∈ left, ∃ used ∈ left, graph.Refers used user) :
    (sorting.degrees.filter fun _ degree => 0 < degree).keys = left := by
  have hmem (unit : UnitKey) :
      unit ∈ (sorting.degrees.filter fun _ degree => 0 < degree).keys ↔ unit ∈ left := by
    rw [ExtTreeMap.mem_keys, ExtTreeMap.mem_iff_isSome_getElem?, ExtTreeMap.getElem?_filter',
      h.degrees_eq]
    constructor
    · intro hcounts
      by_contra hplaced
      split at hcounts
      · next hnode => simp [h.settled unit hnode hplaced, Option.filter] at hcounts
      · contradiction
    · intro hunit
      obtain ⟨used, hused, hrefers⟩ := hleft unit hunit
      simp [h.sublist.subset hunit, degree_pos hused hrefers, Option.filter]
  have hsorted : left.Pairwise fun a b => compare a b = .lt :=
    ExtTreeMap.ordered_keys.sublist h.sublist
  have hperm := (List.perm_ext_iff_of_nodup ExtTreeMap.nodup_keys h.nodup).mpr hmem
  refine hperm.eq_of_pairwise (fun a b _ _ hless hmore => ?_) ExtTreeMap.ordered_keys hsorted
  exact (Std.OrientedCmp.not_lt_of_lt hless hmore).elim

end Sorting

/-- There are rounds enough: in the end no node is ready. -/
theorem ready_run_eq_empty (hclosed : graph.Closed) :
    (graph.startSorting.run graph graph.nodes.length).ready = ∅ :=
  ((Sorting.tracks_start hclosed).run (Nat.le_refl _)).2.2

/-- Counting down gives the order by definition if this places all nodes, and else the nodes that it
leaves. -/
theorem sort_eq (hclosed : graph.Closed) : graph.sort =
    if (graph.arrange graph.nodes).2 = [] then .ok (graph.arrange graph.nodes).1
    else .error (graph.arrange graph.nodes).2 := by
  obtain ⟨htracks, hplaced, -⟩ := (Sorting.tracks_start hclosed).run (Nat.le_refl _)
  have hlength := (graph.arrange_perm graph.nodes).length_eq
  rw [List.length_append] at hlength
  rw [show graph.startSorting.placed.toList = [] from rfl, List.nil_append] at hplaced
  unfold sort
  dsimp only
  rw [← Array.length_toList, hplaced, htracks.keys_eq (graph.exists_left graph.nodes)]
  refine if_congr ?_ rfl rfl
  rw [← List.length_eq_zero_iff]
  omega

end ReferenceGraph

end Phrasebook
