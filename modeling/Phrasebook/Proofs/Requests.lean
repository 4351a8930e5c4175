import Mathlib.Data.List.Infix
import Phrasebook.Proofs.Accounting
import Phrasebook.Proofs.Attempts
import Phrasebook.Proofs.Isolation
import Phrasebook.Proofs.Metering
import Phrasebook.Proofs.Synonyms

/-! Asking for more only adds. A greater request has at least the same budget for duplicates, so that
sampling for it first does all that sampling for the smaller one does and goes on from there. Numbers
of testing examples are looked at nowhere else, so that more of them change the training examples only
by what comes behind. -/

namespace Phrasebook

namespace SampleRun

variable {draw : Nat → Except GenerationError (Example × Synonyms)}
  {requested requested' budget budget' : Nat}

/-- Sampling for more passes through the end of sampling for less. -/
theorem continueWith_resume (hrequested : requested ≤ requested') (hbudget : budget ≤ budget')
    (run : SampleRun) {mid : SampleRun} (h : run.continueWith draw requested budget = .ok mid) :
    run.continueWith draw requested' budget' = mid.continueWith draw requested' budget' := by
  fun_induction run.continueWith draw requested budget with
  | case1 run more error hdraw => contradiction
  | case2 run more drawn hdraw _ ih =>
    rw [continueWith, dif_pos ⟨by omega, by omega⟩, hdraw]
    exact ih h
  | case3 run _ => exact Except.ok.inj h ▸ rfl

/-- The later run has what the run has, and maybe more behind it. -/
structure Extends (run later : SampleRun) : Prop where
  found : run.found.toList <+: later.found.toList
  synonyms : run.synonyms.Within later.synonyms

theorem Extends.refl (run : SampleRun) : run.Extends run := ⟨List.prefix_rfl, .refl _⟩

theorem Extends.add {run later : SampleRun} (h : run.Extends later) (drawn : Example × Synonyms) :
    run.Extends (later.add drawn) := by
  unfold SampleRun.add
  split
  · exact ⟨h.found, h.synonyms⟩
  · refine ⟨?_, h.synonyms.trans (Synonyms.within_merge _ _)⟩
    rw [Array.toList_push]
    exact h.found.trans (List.prefix_append _ _)

theorem extends_of_le (hrequested : requested ≤ requested') (hbudget : budget ≤ budget')
    {run mid last : SampleRun} (h : run.continueWith draw requested budget = .ok mid)
    (h' : run.continueWith draw requested' budget' = .ok last) : mid.Extends last := by
  rw [continueWith_resume hrequested hbudget run h] at h'
  exact continueWith_keeps (fun _ drawn hextends _ _ => hextends.add drawn) mid (.refl mid) h'

end SampleRun

theorem retryBudget_mono {requested requested' : Nat} (h : requested ≤ requested')
    (possibilities : Possibilities) (factor : UInt64) :
    retryBudget requested possibilities factor ≤ retryBudget requested' possibilities factor := by
  unfold retryBudget
  cases possibilities.finite? with
  | some count => exact Nat.le_refl _
  | none =>
    have hproduct : requested * factor.toNat ≤ requested' * factor.toNat := Nat.mul_le_mul_right _ h
    dsimp only
    omega

/-- The unit with another number of testing examples. -/
def Definition.withTesting (definition : Definition) (count : Option UInt64) : Definition :=
  { definition with testingCount := count }

/-- Without strictness no shortfall is an error. -/
theorem Definition.exists_outcome (definition : Definition) {options : Options}
    (h : options.strict = false) (batch : Batch) :
    ∃ outcome, definition.outcome options batch = .ok outcome := by
  have hpartial (generated : Nat) :
      ∃ warnings, definition.partialWarnings options.strict generated = .ok warnings := by
    unfold partialWarnings
    rw [h]
    split
    · exact ⟨_, rfl⟩
    · split <;> exact ⟨_, rfl⟩
  unfold Definition.outcome
  obtain ⟨shortfall, hshortfall⟩ := hpartial _
  exact ⟨_, bind_eq_ok_iff.mpr ⟨shortfall, hshortfall, rfl⟩⟩

namespace Registry

variable {registry other : Registry} {options : Options} {definition : Definition}
  {possibilities : Possibilities} {seed : UInt64} {batch batch' : Batch}

/-! ### Batches -/

/-- A batch that was sampled answers a request for a number of examples. -/
theorem exists_sampled {requested : Option Nat}
    (h : registry.batchOf options definition requested seed possibilities = .ok batch)
    (hsampled : batch.strategy = .randomSampling) : ∃ count, requested = some count ∧
      registry.sampleBatch options definition count possibilities seed = .ok batch := by
  unfold batchOf at h
  split at h
  · next count hchosen => exact ⟨count, rfl, h⟩
  · unfold subsampleBatch at h
    obtain ⟨found, -, hbatch⟩ := bind_eq_ok_iff.mp h
    obtain rfl := Except.ok.inj hbatch
    contradiction
  · unfold exhaustiveBatch at h
    obtain ⟨found, -, hbatch⟩ := bind_eq_ok_iff.mp h
    obtain rfl := Except.ok.inj hbatch
    contradiction

theorem sampleBatch_extends {requested requested' : Nat} (hrequested : requested ≤ requested')
    (h : registry.sampleBatch options definition requested possibilities seed = .ok batch)
    (h' : registry.sampleBatch options definition requested' possibilities seed = .ok batch') :
    batch.examples <+: batch'.examples ∧ batch.synonyms.Within batch'.synonyms := by
  obtain ⟨mid, hmid, hbatch⟩ := bind_eq_ok_iff.mp h
  obtain ⟨last, hlast, hbatch'⟩ := bind_eq_ok_iff.mp h'
  obtain rfl := Except.ok.inj hbatch
  obtain rfl := Except.ok.inj hbatch'
  obtain ⟨hfound, hsynonyms⟩ := SampleRun.extends_of_le hrequested
    (retryBudget_mono hrequested possibilities options.maxLoopFactor) hmid hlast
  exact ⟨hfound, hsynonyms⟩

theorem batchOf_extends {requested requested' : Nat} (hrequested : requested ≤ requested')
    (h : registry.batchOf options definition (some requested) seed possibilities = .ok batch)
    (h' : registry.batchOf options definition (some requested') seed possibilities = .ok batch')
    (hsampled : batch.strategy = .randomSampling) (hsampled' : batch'.strategy = .randomSampling) :
    batch.examples <+: batch'.examples ∧ batch.synonyms.Within batch'.synonyms := by
  obtain ⟨_, hcount, hbatch⟩ := exists_sampled h hsampled
  obtain ⟨_, hcount', hbatch'⟩ := exists_sampled h' hsampled'
  obtain rfl := Option.some.inj hcount
  obtain rfl := Option.some.inj hcount'
  exact sampleBatch_extends hrequested hbatch hbatch'

/-! ### Templates that differ in their numbers of testing examples -/

/-- The templates have the same units, but for their numbers of testing examples. -/
def SameButTesting (registry other : Registry) : Prop :=
  ∀ key, ∃ count, other.get? key = (registry.get? key).map (·.withTesting count)

theorem SameButTesting.refl (registry : Registry) : registry.SameButTesting registry := by
  intro key
  cases registry.get? key with
  | none => exact ⟨none, rfl⟩
  | some definition => exact ⟨definition.testingCount, rfl⟩

theorem SameButTesting.countReference (h : registry.SameButTesting other) (visiting : List PoolKey)
    (ref : Reference) : other.countReference visiting ref = registry.countReference visiting ref := by
  -- Each pool that is entered leaves fewer pools that can still be entered.
  induction hroom : registry.freshPools visiting using Nat.strongRecOn
    generalizing visiting ref with
  | ind room ih =>
    subst hroom
    obtain ⟨count, hother⟩ := h ref.target
    cases htarget : registry.get? ref.target with
    | none =>
      rw [htarget] at hother
      rw [countReference_of_none htarget, countReference_of_none hother]
    | some target =>
      rw [htarget] at hother
      rw [countReference_of_some htarget, countReference_of_some hother]
      congr 1
      show target.countPool ref.variation visiting _ = target.countPool ref.variation visiting _
      congr 1
      funext rules hrules hfresh
      have hless := registry.freshPools_cons_lt htarget hrules hfresh
      exact Rule.countAll_congr rules fun inner _ => ih _ hless _ inner rfl

theorem SameButTesting.countUnit (h : registry.SameButTesting other) (count : Option UInt64) :
    other.countUnit (definition.withTesting count) none = registry.countUnit definition none := by
  show definition.countPool none [] _ = definition.countPool none [] _
  congr 1
  funext rules hrules hfresh
  exact Rule.countAll_congr rules fun inner _ => h.countReference _ inner

theorem SameButTesting.drawUnit {Source : Type} [RandomSource Source]
    (h : registry.SameButTesting other) (maxDepth depth : Nat) (definition : Definition)
    (count : Option UInt64) (variation argument : Option String) :
    (other.drawUnit maxDepth depth (definition.withTesting count) variation argument :
      SampleM Source Example) = registry.drawUnit maxDepth depth definition variation argument := by
  -- The room below the limit on depth shrinks with each unit that is entered.
  induction hroom : maxDepth - depth generalizing depth definition count variation argument with
  | zero =>
    rw [drawUnit_of_not_lt _ (by omega), drawUnit_of_not_lt _ (by omega)]
    rfl
  | succ room ih =>
    have hroom' : depth < maxDepth := by omega
    rw [drawUnit_of_lt other hroom', drawUnit_of_lt registry hroom']
    have hreference : (other.drawReference (other.drawUnit maxDepth (depth + 1)) :
        Reference → SampleM Source Example) =
          registry.drawReference (registry.drawUnit maxDepth (depth + 1)) := by
      funext ref
      obtain ⟨count, hother⟩ := h ref.target
      unfold drawReference
      rw [hother]
      cases registry.get? ref.target with
      | none => rfl
      | some target =>
        rw [Option.map_some]
        exact congrArg ref.modifiers.drawIfIncluded
          (ih (depth + 1) target count ref.variation ref.modifiers.argumentValue (by omega))
    show other.drawInside (other.drawUnit maxDepth (depth + 1)) definition variation argument = _
    unfold drawInside
    rw [hreference]

theorem SameButTesting.sampleBatch (h : registry.SameButTesting other) (count : Option UInt64)
    (requested : Nat) (possibilities : Possibilities) (seed : UInt64) :
    other.sampleBatch options (definition.withTesting count) requested possibilities seed =
      registry.sampleBatch options definition requested possibilities seed := by
  have hdraw : other.drawAttempt options.maxDepth.toNat (definition.withTesting count) seed =
      registry.drawAttempt options.maxDepth.toNat definition seed := by
    funext attempt
    unfold drawAttempt drawOnce
    rw [h.drawUnit]
  unfold Registry.sampleBatch
  rw [hdraw]

/-! ### Training examples -/

theorem training_of_outcome {outcome : IntentOutcome}
    (h : definition.outcome options batch = .ok outcome) :
    outcome.report.strategy = batch.strategy ∧ outcome.examples.training =
      (splitExamples batch.examples (definition.requestedCount.map (·.toNat))).1 := by
  unfold Definition.outcome at h
  obtain ⟨shortfall, -, houtcome⟩ := bind_eq_ok_iff.mp h
  obtain rfl := Except.ok.inj houtcome
  exact ⟨rfl, rfl⟩

/-- The training examples of an intent that is sampled are the first ones of its batch, which is the
same whatever other intents ask for testing. -/
theorem SameButTesting.exists_sampled (h : registry.SameButTesting other) {memo : CountMemo}
    {count : Option UInt64} {outcome : IntentOutcome}
    (hrun : ((other.generateIntent options (definition.withTesting count)).run memo).1 = .ok outcome)
    (hsampled : outcome.report.strategy = .randomSampling) :
    ∃ possibilities training batch, ((registry.countUnit definition none).run memo).1 =
        .ok possibilities ∧
      definition.requestedCount = some training ∧
      registry.sampleBatch options definition
        (min maxCount (training.toNat + (count.getD 0).toNat)) possibilities
        (Seed.ofName options.seed definition.key.name) = .ok batch ∧
      outcome.examples.training = batch.examples.take training.toNat := by
  obtain ⟨batch, hbatch, -, houtcome⟩ := exists_batch_of_generateIntent hrun
  obtain ⟨hstrategy, htraining⟩ := training_of_outcome houtcome
  rw [run_batch, h.countUnit] at hbatch
  obtain ⟨possibilities, hcount, hbatch⟩ := bind_eq_ok_iff.mp hbatch
  obtain ⟨requested, hwanted, hsample⟩ :=
    Registry.exists_sampled hbatch (hstrategy ▸ hsampled)
  obtain ⟨training, hrequested, rfl⟩ := Definition.wanted_eq_some_iff.mp hwanted
  rw [h.sampleBatch] at hsample
  refine ⟨possibilities, training, batch, hcount, hrequested, hsample, ?_⟩
  rw [htraining, hrequested]
  rfl

/-- A batch that is sampled for more begins with the examples of each batch that is sampled for less,
and lists all of its synonyms; so an intent that is sampled keeps its training examples in front when
examples are wanted for testing as well. -/
theorem sampled_extends (registry : Registry) (options : Options) (definition : Definition)
    (seed : UInt64) (memo : CountMemo) :
    (∀ requested requested' batch batch', requested ≤ requested' →
      ((registry.batch options definition (some requested) seed).run memo).1 = .ok batch →
      ((registry.batch options definition (some requested') seed).run memo).1 = .ok batch' →
      batch.strategy = .randomSampling → batch'.strategy = .randomSampling →
      batch.examples <+: batch'.examples ∧ batch.synonyms.Within batch'.synonyms) ∧
    ∀ other count outcome outcome', registry.SameButTesting other →
      ((registry.generateIntent options (definition.withTesting none)).run memo).1 = .ok outcome →
      ((other.generateIntent options (definition.withTesting (some count))).run memo).1 =
        .ok outcome' →
      outcome.report.strategy = .randomSampling → outcome'.report.strategy = .randomSampling →
      outcome.examples.training <+: outcome'.examples.training := by
  constructor
  · intro requested requested' batch batch' hrequested hbatch hbatch' hsampled hsampled'
    rw [run_batch] at hbatch hbatch'
    obtain ⟨possibilities, hcount, hbatch⟩ := bind_eq_ok_iff.mp hbatch
    obtain ⟨_, hcount', hbatch'⟩ := bind_eq_ok_iff.mp hbatch'
    obtain rfl := Except.ok.inj (hcount.symm.trans hcount')
    exact batchOf_extends hrequested hbatch hbatch' hsampled hsampled'
  · intro other count outcome outcome' hother hrun hrun' hsampled hsampled'
    obtain ⟨possibilities, training, batch, hcount, htraining, hbatch, hexamples⟩ :=
      (SameButTesting.refl registry).exists_sampled hrun hsampled
    obtain ⟨_, _, batch', hcount', htraining', hbatch', hexamples'⟩ :=
      hother.exists_sampled hrun' hsampled'
    obtain rfl := Except.ok.inj (hcount.symm.trans hcount')
    obtain rfl := Option.some.inj (htraining.symm.trans htraining')
    obtain ⟨hbegins, -⟩ := sampleBatch_extends (by dsimp; omega) hbatch hbatch'
    rw [hexamples, hexamples']
    exact List.IsPrefix.take hbegins _

end Registry

/-! An intent with two texts, which is to have an example for testing in another template. -/

namespace Appeal

def ask : Definition where
  key := ⟨.intent, "ask"⟩
  rules := [{ contents := [.word "help"] }, { contents := [.word "assist"] }]
  requestedCount := some 1

def phrasebook : Registry := (Registry.ofUnits [ask]).toOption.getD .empty

def tested : Registry := (Registry.ofUnits [ask.withTesting (some 1)]).toOption.getD .empty

def options : Options := { samplingDivisor := 1 }

def seed : UInt64 := Seed.ofName options.seed ask.key.name

theorem sameButTesting : phrasebook.SameButTesting tested := by
  intro key
  refine ⟨some 1, ?_⟩
  show ((∅ : Std.ExtTreeMap UnitKey Definition).insert ask.key (ask.withTesting (some 1)))[key]? =
    (((∅ : Std.ExtTreeMap UnitKey Definition).insert ask.key ask)[key]?).map _
  rw [Std.ExtTreeMap.getElem?_insert, Std.ExtTreeMap.getElem?_insert]
  split
  · rfl
  · simp

theorem count_ask : ((phrasebook.countUnit ask none).run ∅).1 = .ok (.finite 2) := by
  rfl

theorem choose_ask {requested : Nat} (h : requested ≤ 2) :
    Strategy.choose (some requested) (.finite 2) options.samplingDivisor = .randomSampling :=
  if_pos h

/-- The first two attempts draw different texts, so that batches of one and of two are just these. -/
theorem exists_sampleBatches : ∃ batch batch',
    phrasebook.sampleBatch options ask 1 (.finite 2) seed = .ok batch ∧
    batch.strategy = .randomSampling ∧ batch.examples.map (·.text) = ["assist"] ∧
    phrasebook.sampleBatch options ask 2 (.finite 2) seed = .ok batch' ∧
    batch'.strategy = .randomSampling ∧ batch'.examples.map (·.text) = ["assist", "help"] := by
  have htexts : (phrasebook.drawAttempt 64 ask seed 0).toOption.map (·.1.text) = some "assist" ∧
      (phrasebook.drawAttempt 64 ask seed 1).toOption.map (·.1.text) = some "help" := by
    decide +kernel
  obtain ⟨first, hfirst, hassist⟩ := exists_ok_of_map_toOption htexts.1
  obtain ⟨second, hsecond, hhelp⟩ := exists_ok_of_map_toOption htexts.2
  obtain ⟨batch, hbatch, hsampled, hexamples, -⟩ :=
    Registry.exists_sampleBatch_of_drawAttempt options (.finite 2) [first]
      (fun | 0, _, rfl => hfirst) (List.nodup_singleton _)
  obtain ⟨batch', hbatch', hsampled', hexamples', -⟩ :=
    Registry.exists_sampleBatch_of_drawAttempt options (.finite 2) [first, second]
      (fun | 0, _, rfl => hfirst | 1, _, rfl => hsecond) (by simp [hassist, hhelp])
  exact ⟨batch, batch', hbatch, hsampled, by simp [hexamples, hassist], hbatch', hsampled',
    by simp [hexamples', hassist, hhelp]⟩

theorem exists_outcome {other : Registry} (h : phrasebook.SameButTesting other)
    {count : Option UInt64} {requested : Nat} {batch : Batch}
    (hwanted : (ask.withTesting count).wanted = some requested) (hfew : requested ≤ 2)
    (hbatch : phrasebook.sampleBatch options ask requested (.finite 2) seed = .ok batch) :
    ∃ outcome, ((other.generateIntent options (ask.withTesting count)).run ∅).1 = .ok outcome ∧
      outcome.report.strategy = batch.strategy ∧
      outcome.examples.training = batch.examples.take 1 := by
  have hmade : other.batchOf options (ask.withTesting count) (ask.withTesting count).wanted seed
      (.finite 2) = .ok batch := by
    rw [hwanted, Registry.batchOf_of_randomSampling seed (choose_ask hfew)]
    exact (h.sampleBatch count requested _ seed).trans hbatch
  obtain ⟨outcome, houtcome⟩ := (ask.withTesting count).exists_outcome
    (show options.strict = false from rfl) batch
  rw [Registry.run_generateIntent, h.countUnit, count_ask]
  refine ⟨outcome, bind_eq_ok_iff.mpr ⟨_, rfl, bind_eq_ok_iff.mpr ⟨batch, hmade, houtcome⟩⟩, ?_⟩
  exact Registry.training_of_outcome houtcome

/-- The batch for two has the example of the batch for one, and another behind it. With the other one
for testing, the first one is still the example for training. -/
theorem sampled_extends_ask : ∃ batch batch' outcome outcome',
    ((phrasebook.batch options ask (some 1) seed).run ∅).1 = .ok batch ∧
    ((phrasebook.batch options ask (some 2) seed).run ∅).1 = .ok batch' ∧
    batch.examples.map (·.text) = ["assist"] ∧
    batch'.examples.map (·.text) = ["assist", "help"] ∧
    batch.examples <+: batch'.examples ∧ batch.synonyms.Within batch'.synonyms ∧
    ((phrasebook.generateIntent options (ask.withTesting none)).run ∅).1 = .ok outcome ∧
    ((tested.generateIntent options (ask.withTesting (some 1))).run ∅).1 = .ok outcome' ∧
    outcome.examples.training.map (·.text) = ["assist"] ∧
    outcome.examples.training <+: outcome'.examples.training := by
  obtain ⟨batch, batch', hsample, hsampled, htexts, hsample', hsampled', htexts'⟩ :=
    exists_sampleBatches
  have hbatch {requested : Nat} {batch : Batch} (hfew : requested ≤ 2)
      (h : phrasebook.sampleBatch options ask requested (.finite 2) seed = .ok batch) :
      ((phrasebook.batch options ask (some requested) seed).run ∅).1 = .ok batch := by
    rw [Registry.run_batch, count_ask]
    exact (Registry.batchOf_of_randomSampling seed (choose_ask hfew)).trans h
  obtain ⟨outcome, houtcome, hstrategy, htraining⟩ :=
    exists_outcome (.refl phrasebook) (show (ask.withTesting none).wanted = some 1 from rfl)
      (by decide) hsample
  obtain ⟨outcome', houtcome', hstrategy', -⟩ :=
    exists_outcome sameButTesting (show (ask.withTesting (some 1)).wanted = some 2 from rfl)
      (by decide) hsample'
  obtain ⟨hbatches, hintents⟩ := Registry.sampled_extends phrasebook options ask seed ∅
  obtain ⟨hexamples, hsynonyms⟩ := hbatches 1 2 batch batch' (by decide)
    (hbatch (by decide) hsample) (hbatch (by decide) hsample') hsampled hsampled'
  refine ⟨batch, batch', outcome, outcome', hbatch (by decide) hsample,
    hbatch (by decide) hsample', htexts, htexts', hexamples, hsynonyms, houtcome, houtcome', ?_, ?_⟩
  · rw [htraining, List.map_take, htexts]
    rfl
  · exact hintents tested 1 outcome outcome' sameButTesting houtcome houtcome'
      (hstrategy.trans hsampled) (hstrategy'.trans hsampled')

end Appeal

end Phrasebook
