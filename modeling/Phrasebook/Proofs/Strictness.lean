import Phrasebook.Proofs.Accounting

/-! Strict runs. What strict options refuse is just what other options warn of: each intent is made in
the same way under both, and only where its shortfall would be told does the strict run stop. -/

namespace Phrasebook

open Std

variable {registry : Registry} {options : Options} {definition : Definition}

/-- No warning tells of missing examples. -/
def Warning.NonePartial (warnings : List Warning) : Prop :=
  ∀ warning ∈ warnings, warning.isPartial = false

namespace Warning

theorem nonePartial_append {first second : List Warning} :
    NonePartial (first ++ second) ↔ NonePartial first ∧ NonePartial second :=
  List.forall_mem_append

theorem nonePartial_testingWarnings (definition : Definition) :
    NonePartial definition.testingWarnings := by
  intro warning hwarning
  unfold Definition.testingWarnings at hwarning
  split at hwarning
  · rw [List.mem_singleton.mp hwarning]
    rfl
  · contradiction

theorem nonePartial_recursionWarnings (registry : Registry) :
    NonePartial registry.recursionWarnings := by
  intro warning hwarning
  unfold Registry.recursionWarnings at hwarning
  split at hwarning
  · contradiction
  · rw [List.mem_singleton.mp hwarning]
    rfl

end Warning

open Warning

namespace Definition

/-- A shortfall is refused under strictness, and told otherwise. -/
theorem partialWarnings_strict_iff {generated : Nat} {warnings : List Warning} :
    definition.partialWarnings true generated = .ok warnings ↔
      definition.partialWarnings false generated = .ok warnings ∧ NonePartial warnings := by
  unfold partialWarnings
  split
  · refine ⟨fun h => ⟨h, ?_⟩, fun h => h.1⟩
    obtain rfl := Except.ok.inj h
    exact List.forall_mem_nil _
  next requested _ =>
  by_cases hfull : requested ≤ generated
  · simp only [hfull, if_true]
    refine ⟨fun h => ⟨h, ?_⟩, fun h => h.1⟩
    obtain rfl := Except.ok.inj h
    exact List.forall_mem_nil _
  · simp only [hfull, if_false, if_true, Bool.false_eq_true]
    constructor
    · intro h
      contradiction
    · rintro ⟨h, hnone⟩
      obtain rfl := Except.ok.inj h
      have hpartial := hnone _ List.mem_cons_self
      contradiction

theorem outcome_strict_iff {batch : Batch} {outcome : IntentOutcome} :
    definition.outcome { options with strict := true } batch = .ok outcome ↔
      definition.outcome { options with strict := false } batch = .ok outcome ∧
        NonePartial outcome.warnings := by
  unfold Definition.outcome
  rw [bind_eq_ok_iff, bind_eq_ok_iff]
  constructor
  · rintro ⟨shortfall, hshortfall, houtcome⟩
    obtain ⟨hlenient, hnone⟩ := partialWarnings_strict_iff.mp hshortfall
    obtain rfl := Except.ok.inj houtcome
    exact ⟨⟨shortfall, hlenient, houtcome⟩,
      nonePartial_append.mpr ⟨nonePartial_testingWarnings definition, hnone⟩⟩
  · rintro ⟨⟨shortfall, hshortfall, houtcome⟩, hnone⟩
    obtain rfl := Except.ok.inj houtcome
    obtain ⟨-, hnone⟩ := nonePartial_append.mp hnone
    exact ⟨shortfall, partialWarnings_strict_iff.mpr ⟨hshortfall, hnone⟩, houtcome⟩

end Definition

namespace Registry

/-- An intent is counted, listed and drawn without a look at strictness. -/
theorem outcomeOf_strict_iff {possibilities : Possibilities} {outcome : IntentOutcome} :
    registry.outcomeOf { options with strict := true } definition possibilities = .ok outcome ↔
      registry.outcomeOf { options with strict := false } definition possibilities = .ok outcome ∧
        NonePartial outcome.warnings := by
  have hbatch : registry.batchOf { options with strict := true } =
      registry.batchOf { options with strict := false } := rfl
  unfold outcomeOf
  rw [hbatch, bind_eq_ok_iff, bind_eq_ok_iff]
  simp only [Definition.outcome_strict_iff]
  constructor
  · rintro ⟨batch, hmade, houtcome, hnone⟩
    exact ⟨⟨batch, hmade, houtcome⟩, hnone⟩
  · rintro ⟨⟨batch, hmade, houtcome⟩, hnone⟩
    exact ⟨batch, hmade, houtcome, hnone⟩

theorem generateIntent_strict_iff {memo : CountMemo} {outcome : IntentOutcome} :
    ((registry.generateIntent { options with strict := true } definition).run memo).1 =
        .ok outcome ↔
      ((registry.generateIntent { options with strict := false } definition).run memo).1 =
        .ok outcome ∧ NonePartial outcome.warnings := by
  rw [run_generateIntent, run_generateIntent, bind_eq_ok_iff, bind_eq_ok_iff]
  simp only [outcomeOf_strict_iff]
  constructor
  · rintro ⟨possibilities, hcount, houtcome, hnone⟩
    exact ⟨⟨possibilities, hcount, houtcome⟩, hnone⟩
  · rintro ⟨⟨possibilities, hcount, houtcome⟩, hnone⟩
    exact ⟨possibilities, hcount, houtcome, hnone⟩

theorem forall₂_and_right {α β : Type} {r : α → β → Prop} {p : β → Prop} {items : List α}
    {results : List β} : List.Forall₂ (fun a b => r a b ∧ p b) items results ↔
      List.Forall₂ r items results ∧ ∀ b ∈ results, p b := by
  induction items generalizing results with
  | nil => cases results <;> simp
  | cons item rest ih =>
    cases results with
    | nil => simp
    | cons result results =>
      rw [List.forall₂_cons, List.forall₂_cons, List.forall_mem_cons, ih]
      tauto

/-- The intents processed under strictness have left the same counts behind, and have the outcomes
that are not told to lack examples. -/
structure Stricter (strict lenient : Progress) : Prop where
  memo_eq : strict.memo = lenient.memo
  made_iff : ∀ (key : UnitKey) (outcome : IntentOutcome), strict.made[key]? = some (.ok outcome) ↔
    lenient.made[key]? = some (.ok outcome) ∧ NonePartial outcome.warnings

theorem Stricter.advance {strict lenient : Progress} (h : Stricter strict lenient)
    (definition : Definition) :
    Stricter (registry.advance { options with strict := true } strict definition)
      (registry.advance { options with strict := false } lenient definition) := by
  refine ⟨?_, fun key outcome => ?_⟩
  · rw [memo_advance, memo_advance, h.memo_eq]
  rw [made_advance, made_advance, ExtTreeMap.getElem?_insert, ExtTreeMap.getElem?_insert]
  split
  · rw [h.memo_eq, Option.some.injEq, Option.some.injEq]
    exact generateIntent_strict_iff
  · exact h.made_iff key outcome

theorem stricter_process (registry : Registry) (options : Options)
    (processed : List Definition) :
    Stricter (registry.process { options with strict := true } processed)
      (registry.process { options with strict := false } processed) := by
  have hfold {strict lenient : Progress} (h : Stricter strict lenient) :
      Stricter (processed.foldl (registry.advance { options with strict := true }) strict)
        (processed.foldl (registry.advance { options with strict := false }) lenient) := by
    induction processed generalizing strict lenient with
    | nil => exact h
    | cons definition rest ih => exact ih (h.advance definition)
  exact hfold ⟨rfl, by simp⟩

theorem isPartial_ofOutcomes {seed : UInt64} {outcomes : List IntentOutcome} :
    (Generation.ofOutcomes seed registry.recursionWarnings outcomes).report.isPartial = false ↔
      ∀ outcome ∈ outcomes, NonePartial outcome.warnings := by
  unfold Report.isPartial Generation.ofOutcomes
  rw [List.any_eq_false]
  simp only [Bool.not_eq_true]
  rw [← NonePartial, nonePartial_append, and_iff_right (nonePartial_recursionWarnings registry)]
  simp only [NonePartial, List.mem_flatMap]
  constructor
  · exact fun h outcome houtcome warning hwarning => h warning ⟨outcome, houtcome, hwarning⟩
  · rintro h warning ⟨outcome, houtcome, hwarning⟩
    exact h outcome houtcome warning hwarning

/-- Under each schedule, a strict run gives just what a run that is not strict gives without a warning
of missing examples. -/
theorem generateBy_strict_iff {schedule : Schedule} (hschedule : registry.Allows options schedule)
    {generation : Generation} :
    registry.generateBy { options with strict := true } schedule = .ok generation ↔
      registry.generateBy { options with strict := false } schedule = .ok generation ∧
        generation.report.isPartial = false := by
  have hallowed (strict : Bool) : registry.Allows { options with strict } schedule :=
    ⟨hschedule.counted, hschedule.finished, hschedule.inTurn⟩
  have hmade := (stricter_process registry options schedule.counted).made_iff
  have hcheck : Options.check { options with strict := true } =
      Options.check { options with strict := false } := rfl
  rw [generateBy_eq_ok_iff (hallowed true), generateBy_eq_ok_iff (hallowed false), hcheck]
  simp only [hmade, forall₂_and_right]
  constructor
  · rintro ⟨hoptions, htemplate, outcomes, ⟨hall, hnone⟩, rfl⟩
    exact ⟨⟨hoptions, htemplate, outcomes, hall, rfl⟩, isPartial_ofOutcomes.mpr hnone⟩
  · rintro ⟨⟨hoptions, htemplate, outcomes, hall, rfl⟩, hnone⟩
    exact ⟨hoptions, htemplate, outcomes, ⟨hall, isPartial_ofOutcomes.mp hnone⟩, rfl⟩

/-- Strictness only refuses: a strict run gives just what a run that is not strict gives without a
warning of missing examples, and fails wherever there would be one. -/
theorem generate_strict_iff {generation : Generation} :
    registry.generate { options with strict := true } = .ok generation ↔
      registry.generate { options with strict := false } = .ok generation ∧
        generation.report.isPartial = false :=
  generateBy_strict_iff (allows_inTurn registry options)

end Registry

end Phrasebook
