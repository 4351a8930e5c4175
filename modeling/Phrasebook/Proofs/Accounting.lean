import Phrasebook.Proofs.Batches
import Phrasebook.Proofs.Capacity

/-! What a run tells about its examples is so. The texts of a batch are all different, so that no
testing example is dropped for the text of a training example, and no batch has more examples than its
intent asks for, so that a batch without a shortfall has just as many. -/

namespace Phrasebook

open Std

/-- Where all texts are different, no example is dropped. -/
theorem splitExamples_some {examples : List Example} (h : (examples.map (·.text)).Nodup)
    (count : Nat) :
    splitExamples examples (some count) = (examples.take count, examples.drop count) := by
  have hcut : ((examples.take count).map (·.text) ++ (examples.drop count).map (·.text)).Nodup := by
    rwa [← List.map_append, List.take_append_drop]
  have hapart := (List.nodup_append.mp hcut).2.2
  unfold splitExamples
  refine Prod.ext rfl (List.filter_eq_self.mpr fun e he => ?_)
  have hnew : e.text ∉ (examples.take count).map (·.text) := fun hmem =>
    hapart e.text hmem e.text (List.mem_map_of_mem he) rfl
  rw [HashSet.contains_ofList, List.contains_eq_mem]
  simpa using hnew

namespace Definition

variable {definition : Definition}

theorem wanted_eq_some_iff {requested : Nat} : definition.wanted = some requested ↔
    ∃ count, definition.requestedCount = some count ∧
      requested = min maxCount (count.toNat + (definition.testingCount.getD 0).toNat) := by
  unfold wanted
  rw [Option.map_eq_some_iff]
  simp only [eq_comm]

/-- The warning about a shortfall is there exactly if there is one. -/
theorem mem_partialWarnings {strict : Bool} {generated : Nat} {warnings : List Warning}
    (h : definition.partialWarnings strict generated = .ok warnings) {warning : Warning} :
    warning ∈ warnings ↔ ∃ requested, definition.wanted = some requested ∧
      generated < requested ∧ warning = .partialBatch definition.key.name requested generated := by
  unfold partialWarnings at h
  split at h
  · next hnone =>
    obtain rfl := Except.ok.inj h
    simp [hnone]
  next requested hsome =>
  simp only [hsome, Option.some.injEq, exists_eq_left']
  split at h
  · next hfull =>
    obtain rfl := Except.ok.inj h
    simp only [List.not_mem_nil, false_iff]
    omega
  split at h
  · contradiction
  · next hfew _ =>
    obtain rfl := Except.ok.inj h
    simp only [List.mem_singleton, Nat.lt_of_not_le hfew, true_and]

theorem le_of_partialWarnings {generated requested : Nat} {warnings : List Warning}
    (h : definition.partialWarnings true generated = .ok warnings)
    (hwanted : definition.wanted = some requested) : requested ≤ generated := by
  unfold partialWarnings at h
  simp only [hwanted] at h
  split at h
  · next hfull => exact hfull
  · contradiction

/-- The examples of an intent and what is told about them agree with its batch and with each other. -/
structure Accounts (definition : Definition) (strict : Bool) (batch : Batch)
    (examples : IntentExamples) (report : IntentReport) (warnings : List Warning) : Prop where
  examples_intent : examples.intent = definition.key.name
  report_intent : report.intent = definition.key.name
  nodup : ((examples.training ++ examples.testing).map (·.text)).Nodup
  append_eq : examples.training ++ examples.testing = batch.examples
  training_none : definition.requestedCount = none →
    examples.training.length = batch.examples.length
  training_some : ∀ count, definition.requestedCount = some count →
    examples.training.length = min count.toNat batch.examples.length
  trainingGenerated : report.trainingGenerated = examples.training.length
  testingGenerated : report.testingGenerated = examples.testing.length
  partialBatch : ∀ requested generated,
    .partialBatch definition.key.name requested generated ∈ warnings ↔
      ∃ count, definition.requestedCount = some count ∧
        requested = min maxCount (count.toNat + (definition.testingCount.getD 0).toNat) ∧
        generated = examples.training.length + examples.testing.length ∧ generated < requested
  /-- Strictness leaves no shortfall. -/
  exact : strict = true → ∀ count, definition.requestedCount = some count →
    count.toNat + (definition.testingCount.getD 0).toNat < UInt64.size →
    examples.training.length = count.toNat ∧
      examples.testing.length = (definition.testingCount.getD 0).toNat

theorem not_partialBatch_mem_testingWarnings {intent : String} {requested generated : Nat} :
    Warning.partialBatch intent requested generated ∉ definition.testingWarnings := by
  unfold testingWarnings
  split <;> simp

theorem intent_of_outcome {options : Options} {batch : Batch} {outcome : IntentOutcome}
    (h : definition.outcome options batch = .ok outcome) {intent : String}
    {requested generated : Nat}
    (hwarning : .partialBatch intent requested generated ∈ outcome.warnings) :
    intent = definition.key.name := by
  unfold Definition.outcome at h
  obtain ⟨shortfall, hshortfall, houtcome⟩ := bind_eq_ok_iff.mp h
  obtain rfl := Except.ok.inj houtcome
  have hmem := (List.mem_append.mp hwarning).resolve_left not_partialBatch_mem_testingWarnings
  obtain ⟨_, -, -, heq⟩ := (mem_partialWarnings hshortfall).mp hmem
  exact (Warning.partialBatch.inj heq).1

theorem accounts_of_outcome {options : Options} {batch : Batch} {outcome : IntentOutcome}
    (hbatch : Registry.Fulfils definition.wanted batch.examples)
    (h : definition.outcome options batch = .ok outcome) :
    definition.Accounts options.strict batch outcome.examples outcome.report outcome.warnings := by
  unfold Definition.outcome at h
  -- The batch is cut in two, or is for training as a whole.
  obtain ⟨training, testing, hsplit, happend, hnone, hsome⟩ : ∃ training testing,
      splitExamples batch.examples (definition.requestedCount.map (·.toNat)) =
        (training, testing) ∧ training ++ testing = batch.examples ∧
      (definition.requestedCount = none → training.length = batch.examples.length) ∧
      ∀ count, definition.requestedCount = some count →
        training.length = min count.toNat batch.examples.length := by
    cases hrequested : definition.requestedCount with
    | none => exact ⟨batch.examples, [], rfl, List.append_nil _, fun _ => rfl, nofun⟩
    | some count =>
      refine ⟨_, _, splitExamples_some hbatch.nodup count.toNat, List.take_append_drop _ _, nofun,
        fun other hother => ?_⟩
      rw [← Option.some.inj hother, List.length_take]
  simp only [hsplit] at h
  obtain ⟨shortfall, hshortfall, houtcome⟩ := bind_eq_ok_iff.mp h
  obtain rfl := Except.ok.inj houtcome
  have hlength : training.length + testing.length = batch.examples.length := by
    rw [← happend, List.length_append]
  refine ⟨rfl, rfl, happend ▸ hbatch.nodup, happend, hnone, hsome, rfl, rfl, ?_, ?_⟩
  · intro requested generated
    rw [List.mem_append, mem_partialWarnings hshortfall]
    simp only [not_partialBatch_mem_testingWarnings, false_or, Warning.partialBatch.injEq, true_and,
      wanted_eq_some_iff]
    constructor
    · rintro ⟨_, ⟨count, hcount, rfl⟩, hless, rfl, rfl⟩
      exact ⟨count, hcount, rfl, rfl, hless⟩
    · rintro ⟨count, hcount, rfl, rfl, hless⟩
      exact ⟨_, ⟨count, hcount, rfl⟩, hless, rfl, rfl⟩
  · intro hstrict count hcount hsmall
    rw [hstrict] at hshortfall
    have hwanted : definition.wanted =
        some (count.toNat + (definition.testingCount.getD 0).toNat) := by
      refine wanted_eq_some_iff.mpr ⟨count, hcount, (Nat.min_eq_right ?_).symm⟩
      unfold maxCount
      omega
    have hatLeast := le_of_partialWarnings hshortfall hwanted
    have hatMost := hbatch.length_le _ hwanted
    have htraining := hsome count hcount
    dsimp only
    omega

end Definition

namespace Registry

variable {registry : Registry} {options : Options} {definition : Definition}

theorem exists_batch_of_generateIntent {memo : CountMemo} {outcome : IntentOutcome}
    (h : ((registry.generateIntent options definition).run memo).1 = .ok outcome) :
    ∃ batch, ((registry.batch options definition definition.wanted
        (Seed.ofName options.seed definition.key.name)).run memo).1 = .ok batch ∧
      Fulfils definition.wanted batch.examples ∧ definition.outcome options batch = .ok outcome := by
  rw [run_generateIntent] at h
  obtain ⟨possibilities, hcount, houtcome⟩ := bind_eq_ok_iff.mp h
  obtain ⟨batch, hbatch, houtcome⟩ := bind_eq_ok_iff.mp houtcome
  refine ⟨batch, ?_, fulfils_of_batchOf hbatch, houtcome⟩
  rw [run_batch, hcount]
  exact hbatch

theorem kind_of_mem_intents (h : definition ∈ registry.intents) :
    definition.key.kind = .intent := by
  simpa using (List.mem_filter.mp h).2

theorem place_eq_of_name_eq {place other : Nat} {first second : Definition}
    (hfirst : registry.intents[place]? = some first)
    (hsecond : registry.intents[other]? = some second)
    (hname : first.key.name = second.key.name) : place = other := by
  have hkey : first.key = second.key := by
    have hkind := kind_of_mem_intents (List.mem_of_getElem? hfirst)
    have hkind' := kind_of_mem_intents (List.mem_of_getElem? hsecond)
    cases hk : first.key
    cases hk' : second.key
    simp_all
  have hplace : place < (registry.intents.map (·.key)).length := by
    rw [List.length_map]
    exact (List.getElem?_eq_some_iff.mp hfirst).1
  refine (List.getElem?_inj hplace registry.nodup_intents).mp ?_
  rw [List.getElem?_map, List.getElem?_map, hfirst, hsecond, Option.map_some, Option.map_some, hkey]

theorem not_partialBatch_mem_recursionWarnings {intent : String} {requested generated : Nat} :
    Warning.partialBatch intent requested generated ∉ registry.recursionWarnings := by
  unfold recursionWarnings
  split <;> simp

/-- A run that succeeds, by whatever schedule, has an entry and a report for each intent, made from
the batch of the intent in its turn of the schedule: no text is repeated, no example lost, every
number told is the true one, and a shortfall is told exactly where there is one. -/
theorem accounts_of_generateBy {schedule : Schedule} (hschedule : registry.Allows options schedule)
    {generation : Generation} (h : registry.generateBy options schedule = .ok generation) :
    generation.intents.length = registry.intents.length ∧
      generation.report.intents.length = registry.intents.length ∧
      generation.report.examplesTotal = (generation.intents.map fun intent =>
        intent.training.length + intent.testing.length).foldr (· + ·) 0 ∧
      ∀ (place : Nat) (definition : Definition), registry.intents[place]? = some definition →
        ∃ turn batch examples report, schedule.counted[turn]? = some definition ∧
          ((registry.batch options definition definition.wanted
            (Seed.ofName options.seed definition.key.name)).run
              (registry.countsAfter options (schedule.counted.take turn))).1 = .ok batch ∧
          generation.intents[place]? = some examples ∧
          generation.report.intents[place]? = some report ∧
          definition.Accounts options.strict batch examples report generation.report.warnings := by
  obtain ⟨outcomes, hlength, rfl, hmade⟩ := generateBy_eq_ok hschedule h
  have hdefinition (place : Nat) (outcome : IntentOutcome)
      (hplace : outcomes[place]? = some outcome) :
      ∃ definition batch, registry.intents[place]? = some definition ∧
        Fulfils definition.wanted batch.examples ∧
        definition.outcome options batch = .ok outcome := by
    have hless := hlength ▸ (List.getElem?_eq_some_iff.mp hplace).1
    obtain ⟨_, other, -, hother, hrun⟩ := hmade place _ (List.getElem?_eq_getElem hless)
    obtain rfl := Option.some.inj (hplace.symm.trans hother)
    obtain ⟨batch, -, hbatch, houtcome⟩ := exists_batch_of_generateIntent hrun
    exact ⟨_, batch, List.getElem?_eq_getElem hless, hbatch, houtcome⟩
  refine ⟨?_, ?_, ?_, fun place definition hintent => ?_⟩
  · rw [Generation.ofOutcomes, List.length_map, hlength]
  · rw [Generation.ofOutcomes, List.length_map, hlength]
  · unfold Generation.ofOutcomes
    rw [List.map_map]
    refine congrArg (List.foldr (· + ·) 0) (List.map_congr_left fun outcome hmem => ?_)
    obtain ⟨place, hplace⟩ := List.getElem?_of_mem hmem
    obtain ⟨_, _, -, hbatch, houtcome⟩ := hdefinition place outcome hplace
    have haccounts := Definition.accounts_of_outcome hbatch houtcome
    rw [haccounts.trainingGenerated, haccounts.testingGenerated]
    rfl
  · obtain ⟨turn, outcome, hturn, hplace, hrun⟩ := hmade place definition hintent
    obtain ⟨batch, hrun, hbatch, houtcome⟩ := exists_batch_of_generateIntent hrun
    have haccounts := Definition.accounts_of_outcome hbatch houtcome
    refine ⟨turn, batch, outcome.examples, outcome.report, hturn, hrun, ?_, ?_,
      { haccounts with partialBatch := fun requested generated => ?_ }⟩
    · rw [Generation.ofOutcomes, List.getElem?_map, hplace, Option.map_some]
    · rw [Generation.ofOutcomes, List.getElem?_map, hplace, Option.map_some]
    rw [← haccounts.partialBatch]
    unfold Generation.ofOutcomes
    rw [List.mem_append, or_iff_right not_partialBatch_mem_recursionWarnings, List.mem_flatMap]
    constructor
    · -- A warning with the name of the intent comes from no other intent.
      rintro ⟨other, hother, hwarning⟩
      obtain ⟨otherPlace, hotherPlace⟩ := List.getElem?_of_mem hother
      obtain ⟨otherIntent, _, hotherIntent, -, hotherOutcome⟩ :=
        hdefinition otherPlace other hotherPlace
      obtain rfl := place_eq_of_name_eq hintent hotherIntent
        (Definition.intent_of_outcome hotherOutcome hwarning)
      obtain rfl := Option.some.inj (hplace.symm.trans hotherPlace)
      exact hwarning
    · exact fun hwarning => ⟨outcome, List.mem_of_getElem? hplace, hwarning⟩

end Registry

/-! Two intents that refer to each other, one of them in a choice that can never be there. In turn,
the run fails, since the second intent is unbounded once the first was counted; it succeeds if the
second intent comes to be counted first. -/

namespace Request

def ask : Definition where
  key := ⟨.intent, "ask"⟩
  rules := [
    { contents := [.word "help",
      .choice [{ contents := [.reference { target := ⟨.intent, "beg"⟩ }] }] (.optional "" 0)] },
    { contents := [.word "assist"] }]
  requestedCount := some 1
  testingCount := some 1

def beg : Definition where
  key := ⟨.intent, "beg"⟩
  rules := [{ contents := [.word "please ", .reference { target := ask.key }] }]

def phrasebook : Registry := (Registry.ofUnits [ask, beg]).toOption.getD .empty

def options : Options := { samplingDivisor := 1, strict := true }

def schedule : Schedule := ⟨[beg, ask], [ask, beg]⟩

theorem allows_schedule : phrasebook.Allows options schedule :=
  ⟨.swap _ _ _, .refl _, nofun⟩

theorem check_phrasebook : phrasebook.check = .ok () := by rfl

theorem get?_beg : phrasebook.get? beg.key = some beg := by rfl

theorem count_beg : ((phrasebook.countUnit beg none).run ∅).1 = .ok (.finite 2) := by decide +kernel

theorem countsAfter_one (first : Definition) : phrasebook.countsAfter options [first] =
    ((phrasebook.countUnit first none).run ∅).2 := Registry.memo_advance {} first

theorem count_ask : ((phrasebook.countUnit ask none).run
    (phrasebook.countsAfter options [beg])).1 = .ok (.finite 2) := by
  rw [countsAfter_one]
  decide +kernel

theorem generate_ne_ok (generation : Generation) :
    phrasebook.generate options ≠ .ok generation := by
  intro h
  obtain ⟨outcomes, -, -, hmade⟩ :=
    Registry.generateBy_eq_ok (Registry.allows_inTurn phrasebook options) h
  obtain ⟨turn, outcome, hturn, -, houtcome⟩ := hmade 1 beg rfl
  obtain rfl : turn = 1 := by
    match turn, hturn with
    | 0, hturn => exact nomatch congrArg Definition.requestedCount (Option.some.inj hturn)
    | 1, _ => rfl
  have hunbounded : ((phrasebook.countUnit beg none).run
      (phrasebook.countsAfter options (phrasebook.inTurn.counted.take 1))).1 = .ok .unbounded := by
    rw [show phrasebook.inTurn.counted.take 1 = [ask] by rfl, countsAfter_one]
    decide +kernel
  rw [Registry.run_generateIntent, hunbounded] at houtcome
  exact nomatch (houtcome : Except.error _ = _)

/-- All examples of the intent that is counted first are listed. -/
theorem exists_outcome_beg :
    ∃ outcome, ((phrasebook.generateIntent options beg).run ∅).1 = .ok outcome := by
  have hweighs : phrasebook.Weighs (.pool beg none none) 2 :=
    Registry.weighs_of_countUnit check_phrasebook get?_beg .start count_beg
  obtain ⟨examples, state, hrun, -⟩ := (hweighs.examplesOf_succeeds check_phrasebook get?_beg
    nofun (show 2 ≤ options.expansionLimit.toNat by decide)).exists_run
  have hfound : phrasebook.uniqueExamples options beg (.finite 2) .generateAll =
      .ok (distinctBy (·.text) examples, state.synonyms) := by
    unfold Registry.uniqueExamples
    dsimp only
    rw [if_neg (by decide), hrun]
  rw [Registry.run_generateIntent, count_beg]
  exact ⟨_, bind_eq_ok_iff.mpr ⟨_, rfl, bind_eq_ok_iff.mpr
    ⟨_, bind_eq_ok_iff.mpr ⟨_, hfound, rfl⟩, rfl⟩⟩⟩

/-- The two examples of the other intent are drawn by its first two attempts. -/
theorem exists_outcome_ask : ∃ outcome, ((phrasebook.generateIntent options ask).run
    (phrasebook.countsAfter options [beg])).1 = .ok outcome := by
  have htexts : (phrasebook.drawAttempt 64 ask (Seed.ofName 42 "ask") 0).toOption.map (·.1.text) =
        some "assist" ∧
      (phrasebook.drawAttempt 64 ask (Seed.ofName 42 "ask") 1).toOption.map (·.1.text) =
        some "help" := by decide +kernel
  obtain ⟨first, hfirst, hassist⟩ := exists_ok_of_map_toOption htexts.1
  obtain ⟨second, hsecond, hhelp⟩ := exists_ok_of_map_toOption htexts.2
  obtain ⟨batch, hbatch, -, hexamples, -⟩ :=
    Registry.exists_sampleBatch_of_drawAttempt options (.finite 2) [first, second]
      (fun | 0, _, rfl => hfirst | 1, _, rfl => hsecond) (by simp [hassist, hhelp])
  obtain ⟨outcome, houtcome⟩ : ∃ outcome, ask.outcome options batch = .ok outcome := by
    have hnodup : (batch.examples.map (·.text)).Nodup := by simp [hexamples, hassist, hhelp]
    unfold Definition.outcome
    dsimp only [ask, Option.map]
    rw [splitExamples_some hnodup, hexamples]
    exact ⟨_, rfl⟩
  rw [Registry.run_generateIntent, count_ask]
  exact ⟨_, bind_eq_ok_iff.mpr ⟨_, rfl, bind_eq_ok_iff.mpr ⟨batch, hbatch, houtcome⟩⟩⟩

/-- The run gives the intent just the example for training and the one for testing that it asks for,
next to the examples of the other intent. -/
theorem accounts_of_generateBy_schedule : ∃ generation asked begged,
    phrasebook.generateBy options schedule = .ok generation ∧
      generation.intents[0]? = some asked ∧ generation.intents[1]? = some begged ∧
      asked.training.length = 1 ∧ asked.testing.length = 1 ∧
      ((asked.training ++ asked.testing).map (·.text)).Nodup := by
  obtain ⟨generation, hgeneration⟩ : ∃ generation,
      phrasebook.generateBy options schedule = .ok generation :=
    Registry.exists_generation allows_schedule (by rfl) check_phrasebook
      (fun | 0, _, rfl => exists_outcome_beg | 1, _, rfl => exists_outcome_ask)
  obtain ⟨-, -, -, hall⟩ := Registry.accounts_of_generateBy allows_schedule hgeneration
  obtain ⟨_, _, asked, _, -, -, hasked, -, haccounts⟩ := hall 0 ask rfl
  obtain ⟨_, _, begged, _, -, -, hbegged, -⟩ := hall 1 beg rfl
  obtain ⟨htraining, htesting⟩ := haccounts.exact rfl 1 rfl (by decide)
  exact ⟨generation, asked, begged, hgeneration, hasked, hbegged, htraining, htesting,
    haccounts.nodup⟩

end Request

end Phrasebook
