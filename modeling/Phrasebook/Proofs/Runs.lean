import Mathlib.Data.List.Forall2
import Phrasebook.Generation
import Phrasebook.Proofs.Tallies

/-! A run, taken apart. Only the count of its possibilities ties what is made for an intent to the
intents before it; what follows is a function of the count. A run that succeeds has made each intent
in its turn, with the counts that those before it left behind, and a run that fails behind the checks
fails at one of them. -/

namespace Phrasebook

open Std

namespace Registry

variable (registry : Registry) (options : Options)

/-- The batch of a unit whose possibilities are counted. -/
def batchOf (definition : Definition) (requested : Option Nat) (seed : UInt64)
    (possibilities : Possibilities) : Except GenerationError Batch :=
  match Strategy.choose requested possibilities options.samplingDivisor, requested with
  | .randomSampling, some requested =>
    registry.sampleBatch options definition requested possibilities seed
  | .exhaustiveSubsample, some requested =>
    registry.subsampleBatch options definition requested possibilities seed
  | _, _ => registry.exhaustiveBatch options definition possibilities

/-- The outcome of an intent whose possibilities are counted. -/
def outcomeOf (definition : Definition) (possibilities : Possibilities) :
    Except GenerationError IntentOutcome := do
  let batch ← registry.batchOf options definition definition.wanted
    (Seed.ofName options.seed definition.key.name) possibilities
  definition.outcome options batch

/-- The counts that are known once intents were processed, one after the other. -/
def countsAfter (processed : List Definition) : CountMemo :=
  (registry.process options processed).memo

variable {registry options}

theorem batch_eq (definition : Definition) (requested : Option Nat) (seed : UInt64) :
    registry.batch options definition requested seed =
      registry.countUnit definition none >>= fun possibilities =>
        ExceptT.mk (pure (registry.batchOf options definition requested seed possibilities)) := by
  unfold batch batchOf
  congr 1
  funext possibilities
  cases Strategy.choose requested possibilities options.samplingDivisor <;>
    cases requested <;> rfl

theorem generateIntent_eq (definition : Definition) :
    registry.generateIntent options definition =
      registry.countUnit definition none >>= fun possibilities =>
        ExceptT.mk (pure (registry.outcomeOf options definition possibilities)) := by
  unfold generateIntent outcomeOf
  rw [batch_eq, bind_assoc]
  congr 1
  funext possibilities
  rcases registry.batchOf options definition definition.wanted
    (Seed.ofName options.seed definition.key.name) possibilities with error | batch <;> rfl

theorem run_batch (definition : Definition) (requested : Option Nat) (seed : UInt64)
    (memo : CountMemo) :
    (registry.batch options definition requested seed).run memo =
      (((registry.countUnit definition none).run memo).1 >>=
          registry.batchOf options definition requested seed,
        ((registry.countUnit definition none).run memo).2) := by
  rw [batch_eq, run_bind]
  rcases (registry.countUnit definition none).run memo with ⟨error | possibilities, memo'⟩ <;> rfl

/-- An intent ends with the outcome that its count asks for, and leaves the counts behind that
counting it does. -/
theorem run_generateIntent (definition : Definition) (memo : CountMemo) :
    (registry.generateIntent options definition).run memo =
      (((registry.countUnit definition none).run memo).1 >>= registry.outcomeOf options definition,
        ((registry.countUnit definition none).run memo).2) := by
  rw [generateIntent_eq, run_bind]
  rcases (registry.countUnit definition none).run memo with ⟨error | possibilities, memo'⟩ <;> rfl

theorem get?_of_mem_intents {definition : Definition} (h : definition ∈ registry.intents) :
    registry.get? definition.key = some definition := by
  have hunit := (List.mem_filter.mp h).1
  obtain ⟨⟨key, found⟩, hentry, rfl⟩ := List.mem_map.mp hunit
  exact get?_key (Std.ExtTreeMap.mem_toList_iff_getElem?_eq_some.mp hentry)

theorem Counted.generateIntent {memo : CountMemo} (h : registry.Counted memo)
    {definition : Definition} (hdefinition : registry.get? definition.key = some definition) :
    registry.Counted ((registry.generateIntent options definition).run memo).2 := by
  rw [run_generateIntent]
  exact h.unit none fun other hother => Option.some.inj (hother.symm.trans hdefinition)

/-! ### Intents in any order -/

theorem memo_advance (progress : Progress) (definition : Definition) :
    (registry.advance options progress definition).memo =
      ((registry.countUnit definition none).run progress.memo).2 :=
  congrArg Prod.snd (run_generateIntent definition progress.memo)

theorem made_advance (progress : Progress) (definition : Definition) :
    (registry.advance options progress definition).made =
      progress.made.insert definition.key
        ((registry.generateIntent options definition).run progress.memo).1 := rfl

theorem counted_countsAfter {processed : List Definition}
    (h : ∀ definition ∈ processed, registry.get? definition.key = some definition) :
    registry.Counted (registry.countsAfter options processed) :=
  List.foldlRecOn (motive := fun progress : Progress => registry.Counted progress.memo) processed
    (registry.advance options) .start
    fun _ hmemo definition hmem => hmemo.generateIntent (h definition hmem)

/-- What was made of an intent stays when others are processed. -/
theorem made_foldl_advance {key : UnitKey} {later : List Definition}
    (hlater : key ∉ later.map (·.key)) (progress : Progress) :
    (later.foldl (registry.advance options) progress).made[key]? = progress.made[key]? := by
  induction later generalizing progress with
  | nil => rfl
  | cons definition later ih =>
    rw [List.map_cons, List.mem_cons, not_or] at hlater
    rw [List.foldl_cons, ih hlater.2, made_advance, ExtTreeMap.getElem?_insert,
      if_neg (by simpa using Ne.symm hlater.1)]

/-- Among intents of different keys, each is made with the counts of those before it. -/
theorem made_process {counted : List Definition} (hnodup : (counted.map (·.key)).Nodup) {turn : Nat}
    {definition : Definition} (h : counted[turn]? = some definition) :
    (registry.process options counted).made[definition.key]? =
      some ((registry.generateIntent options definition).run
        (registry.countsAfter options (counted.take turn))).1 := by
  have hcounted : counted = counted.take turn ++ definition :: counted.drop (turn + 1) := by
    obtain ⟨hturn, rfl⟩ := List.getElem?_eq_some_iff.mp h
    rw [← List.drop_eq_getElem_cons hturn, List.take_append_drop]
  have hlater : definition.key ∉ (counted.drop (turn + 1)).map (·.key) := by
    rw [hcounted, List.map_append, List.map_cons] at hnodup
    exact (List.nodup_cons.mp (List.nodup_append.mp hnodup).2.1).1
  have hprocess : registry.process options counted = (counted.drop (turn + 1)).foldl
      (registry.advance options)
      (registry.advance options (registry.process options (counted.take turn)) definition) := by
    unfold process
    rw [← List.foldl_cons, ← List.foldl_append, ← hcounted]
  rw [hprocess, made_foldl_advance hlater, made_advance, ExtTreeMap.getElem?_insert_self]
  rfl

/-- No two intents have one key. -/
theorem nodup_intents (registry : Registry) : (registry.intents.map (·.key)).Nodup :=
  (List.filter_sublist.map _).nodup registry.nodup_units

theorem allows_inTurn (registry : Registry) (options : Options) :
    registry.Allows options registry.inTurn :=
  ⟨.rfl, .rfl, fun _ => rfl⟩

variable {schedule : Schedule}

/-- Each intent has its turn in an allowed schedule, and is made with the counts of those before
it. -/
theorem Allows.exists_made (h : registry.Allows options schedule) {definition : Definition}
    (hmem : definition ∈ registry.intents) :
    ∃ turn, schedule.counted[turn]? = some definition ∧
      (registry.process options schedule.counted).made[definition.key]? =
        some ((registry.generateIntent options definition).run
          (registry.countsAfter options (schedule.counted.take turn))).1 := by
  obtain ⟨turn, hturn⟩ := List.getElem?_of_mem (h.counted.mem_iff.mpr hmem)
  have hnodup := (h.counted.map (·.key)).nodup_iff.mpr registry.nodup_intents
  exact ⟨turn, hturn, made_process hnodup hturn⟩

/-- The counts that an intent finds in an allowed schedule are sound. -/
theorem Allows.counted_take (h : registry.Allows options schedule) (turn : Nat) :
    registry.Counted (registry.countsAfter options (schedule.counted.take turn)) :=
  counted_countsAfter fun _ hmem =>
    get?_of_mem_intents (h.counted.mem_iff.mp (List.mem_of_mem_take hmem))

end Registry

namespace Progress

variable {progress : Progress} {intents : List Definition}

/-- Where all intents were processed, the outcomes are those made of each. -/
theorem results_eq_iff (h : ∀ definition ∈ intents, progress.made[definition.key]?.isSome)
    {outcomes : List IntentOutcome} : progress.results intents = outcomes.map .ok ↔
      List.Forall₂ (fun definition outcome => progress.made[definition.key]? = some (.ok outcome))
        intents outcomes := by
  induction intents generalizing outcomes with
  | nil => cases outcomes <;> simp [results]
  | cons first rest ih =>
    obtain ⟨hfirst, hrest⟩ := List.forall_mem_cons.mp h
    obtain ⟨result, hresult⟩ := Option.isSome_iff_exists.mp hfirst
    have hresults : progress.results (first :: rest) = result :: progress.results rest :=
      List.filterMap_cons_some hresult
    rw [hresults]
    cases outcomes with
    | nil => simp
    | cons outcome outcomes => simp [ih hrest, hresult]

theorem mem_results_iff {result : Except GenerationError IntentOutcome} :
    result ∈ progress.results intents ↔
      ∃ definition ∈ intents, progress.made[definition.key]? = some result :=
  List.mem_filterMap

end Progress

section Results

variable {ε α : Type} {results : List (Except ε α)}

/-- A list of results that are all there is a list of outcomes. -/
theorem mapM_id_eq_ok_iff {outcomes : List α} :
    results.mapM id = .ok outcomes ↔ results = outcomes.map .ok := by
  induction results generalizing outcomes with
  | nil => cases outcomes <;> simp [pure, Except.pure]
  | cons result rest ih =>
    rw [List.mapM_cons, bind_eq_ok_iff]
    simp only [bind_eq_ok_iff, ih]
    cases outcomes <;> simp [pure, Except.pure, eq_comm]

theorem error_mem_of_mapM_id {error : ε} (h : results.mapM id = .error error) :
    .error error ∈ results := by
  induction results with
  | nil => contradiction
  | cons result rest ih =>
    rw [List.mapM_cons] at h
    rcases bind_eq_error_iff.mp h with h | ⟨_, -, h⟩
    · exact List.mem_cons.mpr (.inl h.symm)
    · rcases bind_eq_error_iff.mp h with h | ⟨_, -, h⟩
      · exact List.mem_cons_of_mem _ (ih h)
      · contradiction

theorem discard_eq_ok_iff {result : Except ε α} :
    discard result = .ok () ↔ ∃ outcome, result = .ok outcome := by
  cases result <;> simp [discard, Functor.discard, Functor.mapConst, Except.map]

theorem discard_eq_error_iff {result : Except ε α} {error : ε} :
    discard result = .error error ↔ result = .error error := by
  cases result <;> simp [discard, Functor.discard, Functor.mapConst, Except.map]

end Results

namespace Registry

variable {registry : Registry} {options : Options} {schedule : Schedule}

theorem Allows.results_eq_iff (h : registry.Allows options schedule)
    {outcomes : List IntentOutcome} :
    (registry.process options schedule.counted).results registry.intents = outcomes.map .ok ↔
      List.Forall₂ (fun definition outcome =>
        (registry.process options schedule.counted).made[definition.key]? = some (.ok outcome))
        registry.intents outcomes :=
  Progress.results_eq_iff fun definition hmem => by
    obtain ⟨_, -, hmade⟩ := h.exists_made hmem
    exact Option.isSome_of_eq_some hmade

/-- A run succeeds just if options and template pass their checks and every intent has an outcome.
The order in which the intents are finished plays no part. -/
theorem generateBy_eq_ok_iff (hschedule : registry.Allows options schedule)
    {generation : Generation} :
    registry.generateBy options schedule = .ok generation ↔
      options.check = .ok () ∧ registry.check = .ok () ∧
        ∃ outcomes : List IntentOutcome,
          List.Forall₂ (fun definition outcome =>
            (registry.process options schedule.counted).made[definition.key]? = some (.ok outcome))
            registry.intents outcomes ∧
          generation = .ofOutcomes options.seed registry.recursionWarnings outcomes := by
  simp only [← hschedule.results_eq_iff]
  unfold generateBy
  rcases options.check with fault | _
  · simp
  rcases registry.check with fault | _
  · simp
  simp only [bind_eq_ok_iff, mapM_id_eq_ok_iff, true_and]
  constructor
  · rintro ⟨-, -, outcomes, hresults, hgeneration⟩
    exact ⟨outcomes, hresults, (Except.ok.inj hgeneration).symm⟩
  · rintro ⟨outcomes, hresults, rfl⟩
    refine ⟨(), forM_eq_ok_iff.mpr fun result hresult => discard_eq_ok_iff.mpr ?_, outcomes,
      hresults, rfl⟩
    -- What is finished is what is told, in another order.
    have hmem := (hschedule.finished.filterMap _).mem_iff.mp hresult
    rw [← Progress.results, hresults] at hmem
    obtain ⟨outcome, -, houtcome⟩ := List.mem_map.mp hmem
    exact ⟨outcome, houtcome.symm⟩

/-- A run behind its checks succeeds if every intent is made in its turn. -/
theorem exists_generation (hschedule : registry.Allows options schedule)
    (hoptions : options.check = .ok ()) (hcheck : registry.check = .ok ())
    (h : ∀ turn definition, schedule.counted[turn]? = some definition →
      ∃ outcome, ((registry.generateIntent options definition).run
        (registry.countsAfter options (schedule.counted.take turn))).1 = .ok outcome) :
    ∃ generation, registry.generateBy options schedule = .ok generation := by
  cases hresults :
    ((registry.process options schedule.counted).results registry.intents).mapM id with
  | ok outcomes =>
    exact ⟨_, (generateBy_eq_ok_iff hschedule).mpr ⟨hoptions, hcheck, outcomes,
      hschedule.results_eq_iff.mp (mapM_id_eq_ok_iff.mp hresults), rfl⟩⟩
  | error error =>
    obtain ⟨definition, hmem, hmade⟩ :=
      Progress.mem_results_iff.mp (error_mem_of_mapM_id hresults)
    obtain ⟨turn, hturn, hrun⟩ := hschedule.exists_made hmem
    obtain ⟨outcome, houtcome⟩ := h turn definition hturn
    rw [houtcome, hmade] at hrun
    exact nomatch Option.some.inj hrun

/-- A run that succeeds has an outcome for each intent, made with the counts of those before it. -/
theorem generateBy_eq_ok (hschedule : registry.Allows options schedule) {generation : Generation}
    (h : registry.generateBy options schedule = .ok generation) :
    ∃ outcomes : List IntentOutcome, outcomes.length = registry.intents.length ∧
      generation = .ofOutcomes options.seed registry.recursionWarnings outcomes ∧
      ∀ (place : Nat) (definition : Definition), registry.intents[place]? = some definition →
        ∃ turn outcome, schedule.counted[turn]? = some definition ∧
          outcomes[place]? = some outcome ∧
          ((registry.generateIntent options definition).run
            (registry.countsAfter options (schedule.counted.take turn))).1 = .ok outcome := by
  obtain ⟨-, -, outcomes, hall, rfl⟩ := (generateBy_eq_ok_iff hschedule).mp h
  refine ⟨outcomes, hall.length_eq.symm, rfl, fun place definition hplace => ?_⟩
  obtain ⟨hlt, rfl⟩ := List.getElem?_eq_some_iff.mp hplace
  obtain ⟨turn, hturn, hmade⟩ := hschedule.exists_made (List.getElem_mem hlt)
  have houtcome := hall.get hlt (hall.length_eq ▸ hlt)
  exact ⟨turn, _, hturn, List.getElem?_eq_getElem _,
    Option.some.inj (hmade.symm.trans houtcome)⟩

/-- A run fails at its options, at its template, or at an intent that fails. -/
theorem generateBy_eq_error (hschedule : registry.Allows options schedule) {error : GenerationError}
    (h : registry.generateBy options schedule = .error error) :
    (∃ fault, options.check = .error fault ∧ error = .invalidOptions fault) ∨
      (∃ fault, registry.check = .error fault ∧ error = .template fault) ∨
      ∃ definition ∈ registry.intents, ∃ turn, schedule.counted[turn]? = some definition ∧
        ((registry.generateIntent options definition).run
          (registry.countsAfter options (schedule.counted.take turn))).1 = .error error := by
  unfold generateBy at h
  split at h
  · next fault hoptions => exact .inl ⟨fault, hoptions, (Except.error.inj h).symm⟩
  split at h
  · next fault hcheck => exact .inr (.inl ⟨fault, hcheck, (Except.error.inj h).symm⟩)
  obtain ⟨definition, hmem, hmade⟩ : ∃ definition ∈ registry.intents,
      (registry.process options schedule.counted).made[definition.key]? = some (.error error) := by
    rcases bind_eq_error_iff.mp h with h | ⟨_, -, h⟩
    · obtain ⟨result, hresult, hfault⟩ := exists_of_forM_eq_error h
      rw [discard_eq_error_iff.mp hfault] at hresult
      obtain ⟨definition, hmem, hmade⟩ := Progress.mem_results_iff.mp hresult
      exact ⟨definition, hschedule.finished.mem_iff.mp hmem, hmade⟩
    · rcases bind_eq_error_iff.mp h with h | ⟨_, -, h⟩
      · exact Progress.mem_results_iff.mp (error_mem_of_mapM_id h)
      · contradiction
  obtain ⟨turn, hturn, hmade'⟩ := hschedule.exists_made hmem
  exact .inr (.inr ⟨definition, hmem, turn, hturn, Option.some.inj (hmade'.symm.trans hmade)⟩)

end Registry

end Phrasebook
