import Phrasebook.Proofs.Capacity
import Phrasebook.Proofs.Decisions
import Phrasebook.Proofs.Expands

/-! Exhaustive expansion lists exactly what can be derived. A list of expansions stands for a set of
examples once the named keys are decided: those of the expansions whose decisions the assignment
obeys. Read in this way, each operation on lists is the rule of derivation that it carries out. -/

namespace Phrasebook

namespace Modifiers

variable {modifiers : Modifiers} {s : String → Bool}

theorem isOptional_of_correlationKey {key : String} (h : modifiers.correlationKey = some key) :
    modifiers.isOptional = true := by
  unfold correlationKey at h
  unfold isOptional
  rcases hkey : modifiers.randomKey with _ | other
  · rw [hkey] at h; contradiction
  · rfl

/-- A content may be there if some decision brings it, which has to be the decision for its key. -/
theorem admits_true_iff : modifiers.Admits s true ↔ modifiers.canInclude = true ∧
    ∀ key, modifiers.correlationKey = some key → s key = modifiers.includingDecision := by
  unfold Admits
  rcases hkey : modifiers.correlationKey with _ | key
  · simp
  · have hoptional := isOptional_of_correlationKey hkey
    simp only [canInclude, hoptional, includedBy, includingDecision, Bool.not_true, Bool.false_or,
      List.any_eq_true, Option.some.injEq, forall_eq']
    cases modifiers.randomOpposite <;> cases s key <;> simp

theorem admits_false_iff : modifiers.Admits s false ↔ modifiers.canExclude = true ∧
    ∀ key, modifiers.correlationKey = some key → s key = modifiers.randomOpposite := by
  unfold Admits
  rcases hkey : modifiers.correlationKey with _ | key
  · simp
  · have hoptional := isOptional_of_correlationKey hkey
    simp only [canExclude, hoptional, includedBy, Bool.true_and, List.any_eq_true,
      Option.some.injEq, forall_eq']
    cases modifiers.randomOpposite <;> cases s key <;> simp

end Modifiers

namespace Expansion

/-- The example is among those that the expansions stand for when `s` decides the named keys. -/
def Lists (all : List Expansion) (s : String → Bool) (e : Example) : Prop :=
  ∃ expansion ∈ all, expansion.decisions.ObeyedBy s ∧ expansion.result = e

variable {all left right base : List Expansion} {s : String → Bool} {e : Example}

theorem not_lists_nil : ¬Lists [] s e := fun ⟨_, hmem, _⟩ => List.not_mem_nil hmem

@[simp] theorem lists_distinct : Lists (distinct all) s e ↔ Lists all s e := by
  simp only [Lists, mem_distinct]

@[simp] theorem lists_append : Lists (left ++ right) s e ↔ Lists left s e ∨ Lists right s e := by
  simp only [Lists, List.mem_append, or_and_right, exists_or]

theorem lists_singleton {expansion : Expansion} :
    Lists [expansion] s e ↔ expansion.decisions.ObeyedBy s ∧ e = expansion.result := by
  simp only [Lists, List.mem_singleton, exists_eq_left]
  rw [eq_comm (a := e)]

theorem lists_ofText {text : String} : Lists [.ofText text] s e ↔ e = .ofText text := by
  rw [lists_singleton]
  exact and_iff_right Decisions.obeyedBy_empty

theorem lists_empty : Lists [{}] s e ↔ e = {} := by
  rw [lists_singleton]
  exact and_iff_right Decisions.obeyedBy_empty

theorem obeyed_append?_iff {first second : Expansion} :
    (∃ pair, first.append? second = some pair ∧ pair.decisions.ObeyedBy s ∧ pair.result = e) ↔
      (first.decisions.ObeyedBy s ∧ second.decisions.ObeyedBy s) ∧
        e = first.result.append second.result := by
  rw [← Decisions.obeyed_merge?_iff]
  unfold append?
  rcases first.decisions.merge? second.decisions with _ | merged
  · simp
  · simp [eq_comm]

theorem lists_pairs : Lists (pairs left right) s e ↔
    ∃ a, Lists left s a ∧ ∃ b, Lists right s b ∧ e = a.append b := by
  constructor
  · rintro ⟨pair, hpair, hobeyed, hresult⟩
    obtain ⟨first, hfirst, hpair⟩ := List.mem_flatMap.mp hpair
    obtain ⟨second, hsecond, hpair⟩ := List.mem_filterMap.mp hpair
    obtain ⟨⟨hs, hs'⟩, rfl⟩ := obeyed_append?_iff.mp ⟨pair, hpair, hobeyed, hresult⟩
    exact ⟨_, ⟨first, hfirst, hs, rfl⟩, _, ⟨second, hsecond, hs', rfl⟩, rfl⟩
  · rintro ⟨_, ⟨first, hfirst, hs, rfl⟩, _, ⟨second, hsecond, hs', rfl⟩, rfl⟩
    obtain ⟨pair, hpair, hobeyed, hresult⟩ := obeyed_append?_iff.mpr ⟨⟨hs, hs'⟩, rfl⟩
    have hmem := List.mem_filterMap.mpr ⟨second, hsecond, hpair⟩
    exact ⟨pair, List.mem_flatMap.mpr ⟨first, hfirst, hmem⟩, hobeyed, hresult⟩

/-- Bringing a content decides its key, and leaves the choice of its case. -/
theorem lists_presentVariants {modifiers : Modifiers} :
    Lists (modifiers.presentVariants base) s e ↔
      (∀ key, modifiers.correlationKey = some key → s key = modifiers.includingDecision) ∧
        ∃ a, Lists base s a ∧ e ∈ a.caseVariants modifiers.varyCase := by
  constructor
  · rintro ⟨variant, hvariant, hobeyed, rfl⟩
    obtain ⟨expansion, hmem, hvariant⟩ := List.mem_flatMap.mp hvariant
    split at hvariant
    · contradiction
    next decisions htaken =>
    obtain ⟨form, hform, rfl⟩ := List.mem_map.mp hvariant
    obtain ⟨hs, hkey⟩ := Decisions.obeyed_takeFor?_iff.mp ⟨decisions, htaken, hobeyed⟩
    exact ⟨hkey, _, ⟨expansion, hmem, hs, rfl⟩, hform⟩
  · rintro ⟨hkey, _, ⟨expansion, hmem, hs, rfl⟩, hform⟩
    obtain ⟨decisions, htaken, hobeyed⟩ := Decisions.obeyed_takeFor?_iff.mpr ⟨hs, hkey⟩
    refine ⟨{ result := e, decisions }, List.mem_flatMap.mpr ⟨expansion, hmem, ?_⟩, hobeyed, rfl⟩
    rw [htaken]
    exact List.mem_map.mpr ⟨e, hform, rfl⟩

theorem lists_spaced {modifiers : Modifiers} : Lists (all.map modifiers.spaced) s e ↔
    ∃ a, Lists all s a ∧ e = modifiers.addSpace a := by
  constructor
  · rintro ⟨_, hspaced, hs, rfl⟩
    obtain ⟨expansion, hmem, rfl⟩ := List.mem_map.mp hspaced
    exact ⟨_, ⟨expansion, hmem, hs, rfl⟩, rfl⟩
  · rintro ⟨_, ⟨expansion, hmem, hs, rfl⟩, rfl⟩
    exact ⟨modifiers.spaced expansion, List.mem_map_of_mem hmem, hs, rfl⟩

theorem lists_absent {modifiers : Modifiers} : Lists [modifiers.absent] s e ↔
    (∀ key, modifiers.correlationKey = some key → s key = modifiers.randomOpposite) ∧ e = {} := by
  rw [lists_singleton]
  unfold Modifiers.absent
  rcases modifiers.correlationKey with _ | key
  · simp
  · simp [Decisions.obeyedBy_singleton]

/-- The alternatives of a content are its forms if it may be there, and nothing if it may be left
out. -/
theorem lists_alternatives {modifiers : Modifiers} : Lists (modifiers.alternatives base) s e ↔
    (modifiers.Admits s true ∧ ∃ a, Lists base s a ∧ e ∈ modifiers.forms a) ∨
      (modifiers.Admits s false ∧ e = {}) := by
  unfold Modifiers.alternatives
  rw [lists_distinct, lists_append, lists_spaced, Modifiers.admits_true_iff,
    Modifiers.admits_false_iff]
  apply or_congr
  · cases modifiers.canInclude with
    | false => simp [not_lists_nil]
    | true =>
      simp only [ite_true, lists_presentVariants, Modifiers.forms, List.mem_map, true_and]
      constructor
      · rintro ⟨form, ⟨hkey, a, ha, hform⟩, rfl⟩
        exact ⟨hkey, a, ha, form, hform, rfl⟩
      · rintro ⟨hkey, a, ha, form, hform, rfl⟩
        exact ⟨form, ⟨hkey, a, ha, hform⟩, rfl⟩
  · cases modifiers.canExclude with
    | false => simp [not_lists_nil]
    | true => simp only [ite_true, lists_absent, true_and]

theorem lists_finished {definition : Definition} {rule : Rule} {argument : Option String} :
    Lists ((definition.variants all).filterMap (definition.finished? rule argument)) s e ↔
      ∃ drawn, Lists all s drawn ∧ ∃ variant ∈ drawn.caseVariants definition.varyCase,
        definition.finish rule argument variant = .ok e := by
  unfold Definition.variants
  constructor
  · rintro ⟨finished, hmem, hobeyed, rfl⟩
    obtain ⟨_, hmem, hfinished⟩ := List.mem_filterMap.mp hmem
    obtain ⟨expansion, hexpansion, hmem⟩ := List.mem_flatMap.mp hmem
    obtain ⟨variant, hvariant, rfl⟩ := List.mem_map.mp hmem
    obtain ⟨hdone, hsame⟩ := Definition.finished?_eq_some_iff.mp hfinished
    rw [hsame] at hobeyed
    exact ⟨_, ⟨expansion, hexpansion, hobeyed, rfl⟩, variant, hvariant, hdone⟩
  · rintro ⟨_, ⟨expansion, hexpansion, hobeyed, rfl⟩, variant, hvariant, hdone⟩
    refine ⟨{ expansion with result := e }, List.mem_filterMap.mpr
      ⟨{ expansion with result := variant }, List.mem_flatMap.mpr ⟨expansion, hexpansion, ?_⟩, ?_⟩,
      hobeyed, rfl⟩
    · exact List.mem_map.mpr ⟨variant, hvariant, rfl⟩
    · exact Definition.finished?_eq_some_iff.mpr ⟨hdone, rfl⟩

end Expansion

open Expansion in
/-- Under every assignment, the expansions of a phrase list exactly the examples derived from it. -/
theorem Registry.Expands.lists_iff {registry : Registry} {limit : Nat} {table : Synonyms}
    {phrase : Phrase} {all : List Expansion} (h : registry.Expands limit table phrase all)
    (s : String → Bool) (e : Example) :
    Lists all s e ↔ registry.Derives (Modifiers.Admits s) phrase e := by
  induction h generalizing e with
  | word text => rw [lists_ofText, Derives.word_iff]
  | wordGroup _ =>
    simp only [lists_alternatives, Derives.wordGroup_iff, lists_ofText, exists_eq_left]
  | choice _ _ _ _ ih => simp only [lists_alternatives, Derives.choice_iff, lists_distinct, ih]
  | skippedChoice _ hskipped =>
    rw [lists_alternatives, Derives.choice_iff, Modifiers.admits_true_iff, hskipped]
    simp
  | reference htarget _ _ _ ih =>
    simp only [lists_alternatives, Derives.reference_iff htarget, ih]
  | skippedReference htarget hskipped =>
    rw [lists_alternatives, Derives.reference_iff htarget, Modifiers.admits_true_iff, hskipped]
    simp
  | nil => rw [lists_empty, Derives.contents_nil_iff]
  | concat _ _ _ ihbefore ihall =>
    simp only [lists_distinct, lists_pairs, Derives.contents_append_iff,
      Derives.contents_singleton_iff, ihbefore, ihall]
  | stop rest _ ih =>
    -- Nothing is derived from the contents before, so nothing is from all contents.
    have hnone (e : Example) : ¬registry.Derives (Modifiers.Admits s) (.contents _) e :=
      (ih e).not.mp not_lists_nil
    rw [Derives.contents_append_iff]
    constructor
    · exact fun h => (not_lists_nil h).elim
    · rintro ⟨first, hfirst, -⟩
      exact (hnone first hfirst).elim
  | noBranch =>
    rw [Derives.branches_iff]
    simp [not_lists_nil]
  | branch _ _ _ ihbefore ihall =>
    simp only [lists_append, ihbefore, ihall, Derives.branches_iff, List.mem_append,
      List.mem_singleton, or_and_right, exists_or, exists_eq_left]
  | noRule definition argument =>
    rw [Derives.rules_iff]
    simp [not_lists_nil]
  | rule _ _ _ hfinished _ ihbefore ihall =>
    simp only [hfinished, lists_append, lists_finished, ihbefore, ihall, Derives.rules_iff,
      List.mem_append, List.mem_singleton, or_and_right, exists_or, exists_eq_left]
  | pool hrules _ ih => rw [lists_distinct, ih, Derives.pool_iff hrules]

theorem Registry.Expands.mem_results_iff {registry : Registry} {limit : Nat} {table : Synonyms}
    {phrase : Phrase} {all : List Expansion} (h : registry.Expands limit table phrase all)
    {e : Example} :
    e ∈ distinct (all.map (·.result)) ↔ ∃ s, registry.Derives (Modifiers.Admits s) phrase e := by
  rw [mem_distinct, List.mem_map]
  constructor
  · rintro ⟨expansion, hmem, rfl⟩
    obtain ⟨s, hs⟩ := expansion.decisions.exists_obeyedBy
    exact ⟨s, (h.lists_iff s _).mp ⟨expansion, hmem, hs, rfl⟩⟩
  · rintro ⟨s, hderives⟩
    obtain ⟨expansion, hmem, -, hresult⟩ := (h.lists_iff s e).mpr hderives
    exact ⟨expansion, hmem, hresult⟩

/-- When all examples of a pool are found, they are exactly those that are derived from it, each
under one assignment of decisions to the named keys. -/
theorem Registry.mem_examplesOf_iff {registry : Registry} {limit : Nat} {definition : Definition}
    {variation argument : Option String} {examples : List Example} {state : ExpandState}
    {e : Example} (hdefinition : registry.get? definition.key = some definition)
    (hrun : (registry.examplesOf limit definition variation argument).run {} =
      (.ok examples, state)) :
    e ∈ examples ↔
      ∃ s, registry.Derives (Modifiers.Admits s) (.pool definition variation argument) e := by
  obtain ⟨⟨all, hall, rfl⟩, -⟩ :=
    (registry.examplesOf_ends hdefinition caches_empty).of_run_ok hrun
  exact hall.mem_results_iff

namespace Courtesy

/-- What is left out in politeness is made up for. -/
theorem derives_help_now : phrasebook.Derives (Modifiers.Admits fun _ => false)
    (.pool ask none none) (.ofText "help now") := by
  have hplea : (Modifiers.optional "polite" 50).Admits (fun _ => false) false := ⟨by decide, rfl⟩
  have hnow : { Modifiers.optional "polite" 50 with randomOpposite := true }.Admits
      (fun _ => false) true := ⟨by decide, rfl⟩
  refine .pool rfl (.rule List.mem_cons_self (.cons (.absent rfl rfl hplea) (.cons (.word "help")
    (.cons (.absent rfl trivial hplea) (.cons (.wordGroup hnow List.mem_cons_self) .nil))))
    List.mem_cons_self ?_)
  rfl

theorem help_now_mem_examplesOf : ∃ examples state,
    (phrasebook.examplesOf 8 ask none none).run {} = (.ok examples, state) ∧
      Example.ofText "help now" ∈ examples := by
  obtain ⟨examples, state, hrun⟩ := exists_examples_ask
  exact ⟨examples, state, hrun,
    (Registry.mem_examplesOf_iff get?_ask hrun).mpr ⟨_, derives_help_now⟩⟩

end Courtesy

end Phrasebook
