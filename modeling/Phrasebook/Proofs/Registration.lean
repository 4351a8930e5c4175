import Mathlib.Data.List.Nodup
import Phrasebook.Registry
import Phrasebook.Proofs.Ends

/-! What a registry holds behind a list of units. A unit is added if no unit with its key was added
before, and refused otherwise, which changes nothing; so each key stays with the first unit that came
with it, and where all keys differ the order of the units does not show. -/

namespace Phrasebook

open Std

/-- The order of keys: kind first, aliases before slots before intents, then name. -/
theorem UnitKey.compare_eq_lt_iff {a b : UnitKey} : compare a b = .lt ↔
    a.kind.rank < b.kind.rank ∨ a.kind = b.kind ∧ a.name < b.name := by
  change (compare a.kind.rank b.kind.rank).then (compare a.name b.name) = .lt ↔ _
  rw [Ordering.then_eq_lt, Nat.compare_eq_lt, Nat.compare_eq_eq]
  refine or_congr_right (and_congr ⟨UnitKind.rank_injective, congrArg _⟩ ?_)
  exact compareOfLessAndEq_eq_lt

namespace Registry

variable {registry other last : Registry} {definition : Definition} {units : List Definition}
  {key : UnitKey}

theorem ext_get? (h : ∀ key, registry.get? key = other.get? key) : registry = other := by
  obtain ⟨definitions, keyed⟩ := registry
  obtain ⟨others, keyed'⟩ := other
  obtain rfl : definitions = others := ExtTreeMap.ext_getElem? h
  rfl

theorem contains_iff : registry.contains key = true ↔ (registry.get? key).isSome = true := by
  unfold contains get?
  rw [ExtTreeMap.contains_eq_isSome_getElem?]

theorem contains_eq_false_iff : registry.contains key = false ↔ registry.get? key = none := by
  rw [Bool.eq_false_iff, Ne, contains_iff, Option.not_isSome_iff_eq_none]

theorem get?_empty (key : UnitKey) : empty.get? key = none := ExtTreeMap.getElem?_empty

/-! ### One unit -/

theorem getElem?_insert_key (registry : Registry) (definition : Definition) (key : UnitKey) :
    (registry.definitions.insert definition.key definition)[key]? =
      if definition.key = key then some definition else registry.get? key := by
  rw [ExtTreeMap.getElem?_insert]
  simp only [Std.compare_eq_iff_eq, get?]

theorem keyed_insert (registry : Registry) (definition : Definition) (key : UnitKey)
    (found : Definition)
    (h : (registry.definitions.insert definition.key definition)[key]? = some found) :
    found.key = key := by
  rw [getElem?_insert_key] at h
  split at h
  · next heq => exact Option.some.inj h ▸ heq
  · exact key_of_get? h

/-- The registry with a unit under its key, whatever was there before. -/
def put (registry : Registry) (definition : Definition) : Registry where
  definitions := registry.definitions.insert definition.key definition
  keyed := registry.keyed_insert definition

theorem get?_put (registry : Registry) (definition : Definition) (key : UnitKey) :
    (registry.put definition).get? key =
      if definition.key = key then some definition else registry.get? key :=
  registry.getElem?_insert_key definition key

theorem insert_of_contains (h : registry.contains definition.key = true) :
    registry.insert definition = .error (.duplicateUnit definition.key) := if_pos h

theorem insert_of_not_contains (h : registry.contains definition.key = false) :
    registry.insert definition = .ok (registry.put definition) := if_neg (by simp [h])

/-- Adds a unit to the registry at hand, which stays in use whether the unit is added or refused. -/
def offer (definition : Definition) : ExceptT TemplateError (StateM Registry) Unit := do
  if (← get).contains definition.key then
    throw (.duplicateUnit definition.key)
  modify (·.put definition)

/-- In place or not, a unit is added with one outcome; in place, a refusal leaves what was there. -/
theorem run_offer (registry : Registry) (definition : Definition) :
    (offer definition).run registry = match registry.insert definition with
      | .ok larger => (.ok (), larger)
      | .error error => (.error error, registry) := by
  unfold offer
  rw [run_get_bind]
  cases h : registry.contains definition.key with
  | true => rw [insert_of_contains h, if_pos rfl]; rfl
  | false => rw [insert_of_not_contains h, if_neg Bool.false_ne_true]; rfl

theorem run_offer_of_contains (h : registry.contains definition.key = true) :
    (offer definition).run registry = (.error (.duplicateUnit definition.key), registry) := by
  rw [run_offer, insert_of_contains h]

theorem run_offer_of_not_contains (h : registry.contains definition.key = false) :
    (offer definition).run registry = (.ok (), registry.put definition) := by
  rw [run_offer, insert_of_not_contains h]

/-- What was there stays, and the unit is there unless another one has its key. -/
theorem get?_run_offer (registry : Registry) (definition : Definition) (key : UnitKey) :
    ((offer definition).run registry).2.get? key =
      (registry.get? key).or (if definition.key = key then some definition else none) := by
  by_cases heq : definition.key = key
  · subst heq
    rw [if_pos rfl]
    cases h : registry.contains definition.key with
    | true =>
      obtain ⟨found, hfound⟩ := Option.isSome_iff_exists.mp (contains_iff.mp h)
      rw [run_offer_of_contains h, hfound, Option.some_or]
    | false =>
      rw [run_offer_of_not_contains h, get?_put, if_pos rfl, contains_eq_false_iff.mp h,
        Option.none_or]
  · rw [if_neg heq, Option.or_none]
    cases h : registry.contains definition.key with
    | true => rw [run_offer_of_contains h]
    | false => rw [run_offer_of_not_contains h, get?_put, if_neg heq]

/-! ### Several units -/

/-- Offers units to the registry at hand, one after the other, whatever the answers are. -/
def offerAll : List Definition → StateM Registry (List (Except TemplateError Unit))
  | [] => pure []
  | definition :: rest => do
    let answer ← (offer definition).run
    let answers ← offerAll rest
    pure (answer :: answers)

theorem run_offerAll_cons (registry : Registry) (definition : Definition) (rest : List Definition) :
    (offerAll (definition :: rest)).run registry =
      (((offer definition).run registry).1 ::
          ((offerAll rest).run ((offer definition).run registry).2).1,
        ((offerAll rest).run ((offer definition).run registry).2).2) := rfl

theorem run_offerAll_append (registry : Registry) (earlier later : List Definition) :
    (offerAll (earlier ++ later)).run registry =
      (((offerAll earlier).run registry).1 ++
          ((offerAll later).run ((offerAll earlier).run registry).2).1,
        ((offerAll later).run ((offerAll earlier).run registry).2).2) := by
  induction earlier generalizing registry with
  | nil => rfl
  | cons definition rest ih => rw [List.cons_append, run_offerAll_cons, ih]; rfl

theorem length_answers (registry : Registry) (units : List Definition) :
    ((offerAll units).run registry).1.length = units.length := by
  induction units generalizing registry with
  | nil => rfl
  | cons definition rest ih => rw [run_offerAll_cons, List.length_cons, List.length_cons, ih]

/-- Of the units with one key the first one is kept. -/
theorem get?_run_offerAll (registry : Registry) (units : List Definition) (key : UnitKey) :
    ((offerAll units).run registry).2.get? key =
      (registry.get? key).or (units.find? (·.key = key)) := by
  induction units generalizing registry with
  | nil => exact (Option.or_none).symm
  | cons definition rest ih =>
    rw [run_offerAll_cons, ih, get?_run_offer, Option.or_assoc, List.find?_cons]
    by_cases heq : definition.key = key
    · simp [heq]
    · simp [heq]

/-- What comes of offering units: each key is with the first unit that came with it, and a unit whose
key was taken by then was refused, with the registry left as it was. -/
structure KeepsFirst (registry : Registry) (units : List Definition) : Prop where
  get?_eq : ∀ key, ((offerAll units).run registry).2.get? key =
    (registry.get? key).or (units.find? (·.key = key))
  length_eq : ((offerAll units).run registry).1.length = units.length
  refused : ∀ earlier definition later, units = earlier ++ definition :: later →
    (registry.contains definition.key ∨ ∃ first ∈ earlier, first.key = definition.key) →
    ((offerAll units).run registry).1[earlier.length]? =
        some (.error (.duplicateUnit definition.key)) ∧
      ((offerAll (earlier ++ [definition])).run registry).2 = ((offerAll earlier).run registry).2
  added : ∀ earlier definition later, units = earlier ++ definition :: later →
    registry.contains definition.key = false → (∀ first ∈ earlier, first.key ≠ definition.key) →
    ((offerAll units).run registry).1[earlier.length]? = some (.ok ()) ∧
      ((offerAll units).run registry).2.get? definition.key = some definition

/-- The answer to a unit is that of the registry that the units before it left. -/
theorem getElem?_answers (registry : Registry) (earlier later : List Definition)
    (definition : Definition) :
    ((offerAll (earlier ++ definition :: later)).run registry).1[earlier.length]? =
      some ((offer definition).run ((offerAll earlier).run registry).2).1 := by
  rw [run_offerAll_append, run_offerAll_cons, ← length_answers registry earlier,
    List.getElem?_append_right (Nat.le_refl _), Nat.sub_self]
  rfl

theorem contains_run_offerAll : ((offerAll units).run registry).2.contains key = true ↔
    registry.contains key = true ∨ ∃ first ∈ units, first.key = key := by
  rw [contains_iff, get?_run_offerAll, Option.isSome_or, Bool.or_eq_true, ← contains_iff,
    List.find?_isSome]
  simp only [decide_eq_true_eq]

theorem keepsFirst (registry : Registry) (units : List Definition) :
    registry.KeepsFirst units := by
  refine ⟨get?_run_offerAll registry units, length_answers registry units, ?_, ?_⟩
  · rintro earlier definition later rfl htaken
    have hcontains := contains_run_offerAll.mpr htaken
    rw [getElem?_answers, run_offerAll_append, run_offerAll_cons, run_offer_of_contains hcontains]
    exact ⟨rfl, rfl⟩
  · rintro earlier definition later rfl hfresh hearlier
    have hcontains : ((offerAll earlier).run registry).2.contains definition.key = false := by
      rw [Bool.eq_false_iff, Ne, contains_run_offerAll]
      rintro (htaken | ⟨first, hfirst, hkey⟩)
      · exact Bool.eq_false_iff.mp hfresh htaken
      · exact hearlier first hfirst hkey
    rw [getElem?_answers, run_offer_of_not_contains hcontains, get?_run_offerAll,
      contains_eq_false_iff.mp hfresh, Option.none_or, List.find?_append]
    have hnone : earlier.find? (·.key = definition.key) = none :=
      List.find?_eq_none.mpr fun first hfirst => by simpa using hearlier first hfirst
    rw [hnone, Option.none_or, List.find?_cons_of_pos (by simp)]
    exact ⟨rfl, rfl⟩

/-! ### A list of units with distinct keys -/

/-- Units can be added up to the last if no two have one key, and none has a key that is taken. -/
theorem foldlM_insert_eq_ok_iff : units.foldlM insert registry = .ok last ↔
    ((units.map (·.key)).Nodup ∧ ∀ unit ∈ units, registry.contains unit.key = false) ∧
      last = ((offerAll units).run registry).2 := by
  induction units generalizing registry with
  | nil =>
    simp only [List.map_nil, List.nodup_nil, List.not_mem_nil, false_implies, implies_true,
      and_self, true_and]
    exact ⟨fun h => (Except.ok.inj h).symm, fun h => congrArg _ h.symm⟩
  | cons definition rest ih =>
    rw [List.foldlM_cons, run_offerAll_cons, List.map_cons, List.nodup_cons, List.forall_mem_cons]
    cases h : registry.contains definition.key with
    | true =>
      rw [insert_of_contains h]
      refine ⟨fun hok => ?_, fun ⟨⟨_, hfree, _⟩, _⟩ => nomatch hfree⟩
      contradiction
    | false =>
      have hfresh (unit : Definition) : (registry.put definition).contains unit.key = false ↔
          definition.key ≠ unit.key ∧ registry.contains unit.key = false := by
        rw [contains_eq_false_iff, contains_eq_false_iff, get?_put]
        split <;> simp_all
      have hdistinct : definition.key ∉ rest.map (·.key) ↔
          ∀ unit ∈ rest, definition.key ≠ unit.key := by
        rw [List.mem_map]
        exact ⟨fun hnot unit hunit heq => hnot ⟨unit, hunit, heq.symm⟩,
          fun hall ⟨unit, hunit, heq⟩ => hall unit hunit heq.symm⟩
      rw [insert_of_not_contains h, run_offer_of_not_contains h]
      refine Iff.trans ih ?_
      simp only [hfresh, hdistinct, forall_and, true_and]
      tauto

/-- A registry is made of the units of a list if no two have one key; it is the one that they leave
when they are offered one after the other. -/
theorem ofUnits_eq_ok_iff : ofUnits units = .ok registry ↔
    (units.map (·.key)).Nodup ∧ registry = ((offerAll units).run empty).2 := by
  unfold ofUnits
  rw [foldlM_insert_eq_ok_iff]
  exact and_congr_left' (and_iff_left fun unit _ => contains_eq_false_iff.mpr (get?_empty unit.key))

/-- A registry holds the units of a list, each once, and lists them by kind and name. -/
structure Indexes (registry : Registry) (units : List Definition) : Prop where
  get?_eq_some_iff : ∀ key definition,
    registry.get? key = some definition ↔ definition ∈ units ∧ definition.key = key
  units_perm : registry.units.Perm units
  ordered : registry.units.Pairwise fun first second =>
    first.key.kind.rank < second.key.kind.rank ∨
      first.key.kind = second.key.kind ∧ first.key.name < second.key.name
  size_eq : registry.size = units.length

theorem ordered_units (registry : Registry) :
    registry.units.Pairwise fun first second => compare first.key second.key = .lt := by
  have hkeys : (registry.units.map (·.key)).Pairwise fun a b => compare a b = .lt := by
    rw [map_key_units]
    exact List.pairwise_map.mpr registry.definitions.ordered_keys_toList
  exact List.pairwise_map.mp hkeys

theorem length_units (registry : Registry) : registry.units.length = registry.size := by
  unfold units size
  rw [List.length_map, ExtTreeMap.length_toList]

/-- Of units with distinct keys, the first one with a key is the only one. -/
theorem find?_key_eq_some_iff (hnodup : (units.map (·.key)).Nodup) :
    units.find? (·.key = key) = some definition ↔ definition ∈ units ∧ definition.key = key := by
  induction units with
  | nil => simp
  | cons first rest ih =>
    rw [List.map_cons, List.nodup_cons] at hnodup
    rw [List.find?_cons, List.mem_cons]
    by_cases hkey : first.key = key
    · subst hkey
      have hother : ¬(definition ∈ rest ∧ definition.key = first.key) :=
        fun ⟨hmem, heq⟩ => hnodup.1 (heq ▸ List.mem_map_of_mem hmem)
      simp only [decide_true, Option.some.injEq]
      exact ⟨fun heq => heq ▸ ⟨.inl rfl, rfl⟩,
        fun ⟨hmem, heq⟩ => (hmem.resolve_right fun hrest => hother ⟨hrest, heq⟩).symm⟩
    · rw [show decide (first.key = key) = false from decide_eq_false hkey, ih hnodup.2]
      refine and_congr_left fun heq => (or_iff_right ?_).symm
      rintro rfl
      exact hkey heq

theorem indexes_of_ofUnits (h : ofUnits units = .ok registry) : registry.Indexes units := by
  obtain ⟨hnodup, rfl⟩ := ofUnits_eq_ok_iff.mp h
  generalize hlast : ((offerAll units).run empty).2 = registry
  have hget (key : UnitKey) (definition : Definition) :
      registry.get? key = some definition ↔ definition ∈ units ∧ definition.key = key := by
    rw [← hlast, get?_run_offerAll, get?_empty, Option.none_or, find?_key_eq_some_iff hnodup]
  have hperm : registry.units.Perm units := by
    refine (List.perm_ext_iff_of_nodup registry.nodup_units.of_map hnodup.of_map).mpr
      fun definition => ?_
    rw [mem_units_iff, hget]
    exact and_iff_left rfl
  refine ⟨hget, hperm, ?_, registry.length_units.symm.trans hperm.length_eq⟩
  exact registry.ordered_units.imp UnitKey.compare_eq_lt_iff.mp

/-- The order of units with distinct keys does not show in their registry. -/
theorem ofUnits_perm {reordered : List Definition} (h : ofUnits units = .ok registry)
    (hperm : units.Perm reordered) : ofUnits reordered = .ok registry := by
  have hnodup := (ofUnits_eq_ok_iff.mp h).1
  have hreordered := ofUnits_eq_ok_iff.mpr ⟨(hperm.map _).nodup hnodup, rfl⟩
  rw [hreordered]
  refine congrArg _ (ext_get? fun key => Option.ext fun definition => ?_)
  rw [(indexes_of_ofUnits hreordered).get?_eq_some_iff, (indexes_of_ofUnits h).get?_eq_some_iff,
    hperm.mem_iff]

/-- Units make a registry just if no two have one key. It holds these units and no others, in the order
of their keys, whatever order they came in. Where units are added to a registry in use, the first one
with a key is kept, and another one is refused and changes nothing. -/
theorem indexes_and_keepsFirst (units : List Definition) :
    ((∃ registry, ofUnits units = .ok registry) ↔ (units.map (·.key)).Nodup) ∧
      (∀ registry, ofUnits units = .ok registry → registry.Indexes units ∧
        ∀ reordered, units.Perm reordered → ofUnits reordered = .ok registry) ∧
      ∀ registry : Registry, registry.KeepsFirst units := by
  refine ⟨⟨fun ⟨registry, h⟩ => (ofUnits_eq_ok_iff.mp h).1,
    fun hnodup => ⟨_, ofUnits_eq_ok_iff.mpr ⟨hnodup, rfl⟩⟩⟩, fun registry h => ?_, ?_⟩
  · exact ⟨indexes_of_ofUnits h, fun reordered hperm => ofUnits_perm h hperm⟩
  · exact fun registry => keepsFirst registry units

end Registry

/-! Cities to name, and cities to fill in. -/

namespace Signpost

def town : Definition where
  key := ⟨.shared, "city"⟩
  rules := [{ contents := [.word "town"] }]

def paris : Definition where
  key := ⟨.slot, "city"⟩
  rules := [{ contents := [.word "Paris"] }]

def rome : Definition where
  key := ⟨.slot, "city"⟩
  rules := [{ contents := [.word "Rome"] }]

/-- An alias and a slot may share a name, and come in any order; of two slots the second one is
refused, and the first one stays. -/
theorem indexes_and_keepsFirst_cities :
    (∃ registry, Registry.ofUnits [paris, town] = .ok registry ∧
      Registry.ofUnits [town, paris] = .ok registry ∧ registry.get? paris.key = some paris ∧
      registry.size = 2) ∧
    (¬∃ registry, Registry.ofUnits [paris, town, rome] = .ok registry) ∧
    ((Registry.offerAll [paris, town, rome]).run .empty).1[2]? =
      some (.error (.duplicateUnit rome.key)) ∧
    ((Registry.offerAll [paris, town, rome]).run .empty).2 =
      ((Registry.offerAll [paris, town]).run .empty).2 := by
  obtain ⟨hmade, hheld, -⟩ := Registry.indexes_and_keepsFirst [paris, town]
  obtain ⟨hrefused, -, hkept⟩ := Registry.indexes_and_keepsFirst [paris, town, rome]
  obtain ⟨registry, hregistry⟩ := hmade.mpr (by decide)
  obtain ⟨hindexes, hreordered⟩ := hheld registry hregistry
  refine ⟨⟨registry, hregistry, hreordered _ (.swap town paris []), ?_, hindexes.size_eq⟩, ?_, ?_⟩
  · exact (hindexes.get?_eq_some_iff _ _).mpr ⟨List.mem_cons_self, rfl⟩
  · rw [hrefused]
    decide
  · exact (hkept .empty).refused [paris, town] rome [] rfl
      (.inr ⟨paris, List.mem_cons_self, by decide⟩)

end Signpost

end Phrasebook
