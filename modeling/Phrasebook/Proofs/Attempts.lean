import Phrasebook.Proofs.Batches

/-! What sampling keeps of its attempts. Attempts are numbered from 0, each with a source of its own,
and an example is kept if no attempt before it came to its text. Each attempt uses up a part of the
request or a part of the budget for duplicates and never both, so that sampling ends, and it ends
short of the request exactly if the budget is used up. -/

namespace Phrasebook

namespace SampleRun

variable {draw : Nat → Except GenerationError (Example × Synonyms)} {requested budget : Nat}
  {run : SampleRun} {drawn : List (Example × Synonyms)}

/-- A run behind attempts with these results: it holds the first example of each text, what it does
not hold is a duplicate, and not both the request and the budget are used up. -/
structure Traces (draw : Nat → Except GenerationError (Example × Synonyms)) (requested budget : Nat)
    (run : SampleRun) (drawn : List (Example × Synonyms)) : Prop extends
    run.Sound requested where
  draw_eq : ∀ place (h : place < drawn.length), draw place = .ok drawn[place]
  attempts_eq : run.attempts = drawn.length
  found_eq : run.found.toList = distinctBy (·.text) (drawn.map (·.1))
  attempts_split : run.attempts = run.found.size + run.duplicates
  duplicates_le : run.duplicates ≤ budget
  unused : run.found.size < requested ∨ run.duplicates < budget

theorem traces_empty (hbudget : 0 < budget) : Traces draw requested budget {} [] where
  toSound := sound_empty
  draw_eq _ h := (Nat.not_lt_zero _ h).elim
  attempts_eq := rfl
  found_eq := rfl
  attempts_split := rfl
  duplicates_le := Nat.zero_le _
  unused := .inr hbudget

theorem Traces.add (h : Traces draw requested budget run drawn) {next : Example × Synonyms}
    (hmore : run.found.size < requested) (hroom : run.duplicates < budget)
    (hnext : draw run.attempts = .ok next) :
    Traces draw requested budget (run.add next) (drawn ++ [next]) := by
  have hattempts : (run.add next).attempts = run.attempts + 1 := by
    unfold SampleRun.add
    split <;> rfl
  have hsplit := h.attempts_split
  have hseen : ((distinctBy (·.text) (drawn.map (·.1))).map (·.text)).contains next.1.text =
      run.texts.contains next.1.text := by
    rw [Bool.eq_iff_iff, List.contains_iff_mem, ← Std.HashSet.mem_iff_contains, h.mem_texts,
      h.found_eq]
  refine ⟨h.toSound.add next hmore, fun place hplace => ?_, ?_, ?_, ?_, ?_, ?_⟩
  · rw [List.getElem_append]
    split
    · next hpast => exact h.draw_eq place hpast
    · next hlast =>
      rw [List.length_append, List.length_singleton] at hplace
      obtain rfl : place = run.attempts := by
        rw [h.attempts_eq]
        omega
      rwa [List.getElem_singleton]
  · rw [hattempts, h.attempts_eq, List.length_append, List.length_singleton]
  · rw [List.map_append, List.map_singleton, distinctBy_concat, hseen, ← h.found_eq]
    unfold SampleRun.add
    split
    · rfl
    · rw [Array.toList_push]
  · rcases run.add_cases next with ⟨hfound, hduplicates⟩ | ⟨hfound, hduplicates⟩ <;> omega
  · rcases run.add_cases next with ⟨-, hduplicates⟩ | ⟨-, hduplicates⟩ <;> omega
  · rcases run.add_cases next with ⟨-, hduplicates⟩ | ⟨hfound, -⟩ <;> omega

/-- Sampling comes to an end that traces its attempts, or fails as the first attempt that does. -/
theorem continueWith_traces (draw : Nat → Except GenerationError (Example × Synonyms))
    (requested : Nat) (hbudget : 0 < budget) :
    (∃ last drawn, SampleRun.continueWith draw requested budget {} = .ok last ∧
      Traces draw requested budget last drawn ∧
      (last.found.size < requested ↔ last.duplicates = budget)) ∨
    ∃ past drawn error, SampleRun.continueWith draw requested budget {} = .error error ∧
      Traces draw requested budget past drawn ∧ drawn.length < requested + budget ∧
      draw drawn.length = .error error := by
  have hadd (run : SampleRun) (next : Example × Synonyms)
      (h : ∃ drawn, Traces draw requested budget run drawn) (hmore : run.found.size < requested)
      (hroom : run.duplicates < budget) (hnext : draw run.attempts = .ok next) :
      ∃ drawn, Traces draw requested budget (run.add next) drawn :=
    h.elim fun _ h => ⟨_, h.add hmore hroom hnext⟩
  rcases continueWith_ends hadd {} ⟨[], traces_empty hbudget⟩ with
    ⟨last, hlast, ⟨drawn, h⟩, hover⟩ | ⟨past, error, herror, ⟨drawn, h⟩, hmore, hroom, hdraw⟩
  · refine .inl ⟨last, drawn, hlast, h, ?_⟩
    have hfound := h.size_le
    have hduplicates := h.duplicates_le
    have hunused := h.unused
    omega
  · have hsplit := h.attempts_split
    rw [h.attempts_eq] at hdraw hsplit
    exact .inr ⟨past, drawn, error, herror, h, by omega, hdraw⟩

end SampleRun

/-- A batch that was sampled: the results of its attempts, their first examples of each text, and how
many of them were duplicates. -/
structure Batch.Sampled (batch : Batch) (requested budget : Nat)
    (attempt : UInt64 → Except GenerationError (Example × Synonyms)) (drawn : List Example) :
    Prop where
  strategy_eq : batch.strategy = .randomSampling
  attempts_le : batch.attempts ≤ requested + budget
  attempts_eq : batch.attempts = drawn.length
  attempt_eq : ∀ n : UInt64, n.toNat < batch.attempts →
    ∃ result, attempt n = .ok result ∧ drawn[n.toNat]? = some result.1
  /-- An example is kept if no attempt before its own came to its text. -/
  examples_eq : batch.examples = (drawn.zipIdx.filter fun (e, place) =>
    !((drawn.take place).map (·.text)).contains e.text).map (·.1)
  attempts_split : batch.attempts = batch.examples.length + batch.duplicates
  nodup : (batch.examples.map (·.text)).Nodup
  length_le : batch.examples.length ≤ requested
  short_iff : batch.examples.length < requested ↔ batch.duplicates = budget

/-- The example of the first attempt is kept. -/
theorem Batch.Sampled.examples_ne_nil {batch : Batch} {requested budget : Nat}
    {attempt : UInt64 → Except GenerationError (Example × Synonyms)} {drawn : List Example}
    (h : batch.Sampled requested budget attempt drawn) (hattempts : 0 < batch.attempts) :
    batch.examples ≠ [] := by
  have hlength := h.attempts_eq
  cases drawn with
  | nil =>
    rw [List.length_nil] at hlength
    omega
  | cons first rest =>
    rw [h.examples_eq]
    simp [List.zipIdx_cons]

namespace Registry

variable {registry : Registry} {options : Options} {definition : Definition} {memo : CountMemo}
  {possibilities : Possibilities} {requested : Nat}

theorem sampled_of_traces {last : SampleRun} {drawn : List (Example × Synonyms)} {seed : UInt64}
    {budget : Nat} (h : SampleRun.Traces (registry.drawAttempt options.maxDepth.toNat definition seed)
      requested budget last drawn)
    (hshort : last.found.size < requested ↔ last.duplicates = budget) :
    Batch.Sampled
      { examples := last.found.toList
        synonyms := last.synonyms
        strategy := .randomSampling
        possibilities
        attempts := last.attempts
        duplicates := last.duplicates }
      requested budget
      (fun n => registry.drawOnce options.maxDepth.toNat definition
        (ChaCha.ofSeed (Seed.ofAttempt seed n)))
      (drawn.map (·.1)) := by
  have hsplit := h.attempts_split
  have hfound := h.size_le
  have hduplicates := h.duplicates_le
  constructor
  case strategy_eq => rfl
  case attempts_le => dsimp only; omega
  case attempts_eq => rw [h.attempts_eq, List.length_map]
  case attempt_eq =>
    intro n hn
    have hlength : n.toNat < drawn.length := h.attempts_eq ▸ hn
    refine ⟨drawn[n.toNat], ?_, by rw [List.getElem?_map, List.getElem?_eq_getElem hlength]; rfl⟩
    rw [← h.draw_eq n.toNat hlength, drawAttempt, UInt64.ofNat_toNat]
  case examples_eq => exact h.found_eq.trans (distinctBy_eq_filter _)
  case attempts_split => rw [Array.length_toList]; exact hsplit
  case nodup => exact h.nodup
  case length_le => rw [Array.length_toList]; exact hfound
  case short_iff => rw [Array.length_toList]; exact hshort

theorem batchOf_of_randomSampling (seed : UInt64)
    (hchosen : Strategy.choose (some requested) possibilities options.samplingDivisor =
      .randomSampling) :
    registry.batchOf options definition (some requested) seed possibilities =
      registry.sampleBatch options definition requested possibilities seed := by
  unfold batchOf
  rw [hchosen]

/-- A request that is sampled comes to an end after at most so many attempts as it asks for examples
and has room for duplicates: with a batch that holds the first example of each text, or as the first
attempt that fails. -/
theorem sampled_of_batch (seed : UInt64)
    (hcount : ((registry.countUnit definition none).run memo).1 = .ok possibilities)
    (hchosen : Strategy.choose (some requested) possibilities options.samplingDivisor =
      .randomSampling)
    (hsize : requested + retryBudget requested possibilities options.maxLoopFactor < UInt64.size) :
    let budget := retryBudget requested possibilities options.maxLoopFactor
    let attempt := fun n : UInt64 => registry.drawOnce options.maxDepth.toNat definition
      (ChaCha.ofSeed (Seed.ofAttempt seed n))
    let result := ((registry.batch options definition (some requested) seed).run memo).1
    (∃ batch drawn, result = .ok batch ∧ batch.Sampled requested budget attempt drawn) ∨
      ∃ n error, result = .error error ∧ n.toNat < requested + budget ∧ attempt n = .error error ∧
        ∀ earlier < n, ∃ drawn, attempt earlier = .ok drawn := by
  intro budget attempt result
  have hresult : result =
      registry.sampleBatch options definition requested possibilities seed := by
    dsimp only [result]
    rw [run_batch, hcount]
    exact batchOf_of_randomSampling seed hchosen
  rw [hresult]
  have hbudget : 0 < budget := Nat.le_max_left _ _
  rcases SampleRun.continueWith_traces (registry.drawAttempt options.maxDepth.toNat definition seed)
      requested hbudget with
    ⟨last, drawn, hlast, h, hshort⟩ | ⟨past, drawn, error, herror, h, hless, hdraw⟩
  · exact .inl ⟨_, _, bind_eq_ok_iff.mpr ⟨last, hlast, rfl⟩, sampled_of_traces h hshort⟩
  · have hn : (UInt64.ofNat drawn.length).toNat = drawn.length :=
      UInt64.toNat_ofNat_of_lt' (Nat.lt_trans hless hsize)
    refine .inr ⟨UInt64.ofNat drawn.length, error, bind_eq_error_iff.mpr (.inl herror),
      hn.symm ▸ hless, hdraw, fun earlier hearlier => ?_⟩
    have hlength : earlier.toNat < drawn.length := hn ▸ UInt64.lt_iff_toNat_lt.mp hearlier
    refine ⟨drawn[earlier.toNat], ?_⟩
    rw [← h.draw_eq earlier.toNat hlength, drawAttempt, UInt64.ofNat_toNat]

end Registry

/-! An intent with one text, by two rules. -/

namespace Murmur

def ask : Definition where
  key := ⟨.intent, "ask"⟩
  rules := [{ contents := [.word "help"] }, { contents := [.word "help"] }]
  requestedCount := some 1

def phrasebook : Registry := (Registry.ofUnits [ask]).toOption.getD .empty

def options : Options := { samplingDivisor := 1, maxLoopFactor := 1 }

def seed : UInt64 := Seed.ofName options.seed ask.key.name

def attempt (n : UInt64) : Except GenerationError (Example × Synonyms) :=
  phrasebook.drawOnce 64 ask (ChaCha.ofSeed (Seed.ofAttempt seed n))

theorem count_ask : ((phrasebook.countUnit ask none).run ∅).1 = .ok (.finite 2) := by
  rfl

theorem choose_ask {requested : Nat} (h : requested ≤ 2) :
    Strategy.choose (some requested) (.finite 2) options.samplingDivisor = .randomSampling :=
  if_pos h

theorem exists_attempt {place : Nat} (h : place < 4) :
    ∃ drawn, phrasebook.drawAttempt 64 ask seed place = .ok drawn ∧ drawn.1.text = "help" := by
  have htexts : ∀ place < 4, (phrasebook.drawAttempt 64 ask seed place).toOption.map (·.1.text) =
      some "help" := by decide +kernel
  exact exists_ok_of_map_toOption (htexts place h)

theorem text_of_sampled {batch : Batch} {drawn : List Example}
    (h : batch.Sampled 2 2 attempt drawn) {e : Example} (he : e ∈ batch.examples) :
    e.text = "help" := by
  rw [h.examples_eq] at he
  obtain ⟨⟨e, place⟩, hentry, rfl⟩ := List.mem_map.mp he
  have hdrawn : drawn[place]? = some e :=
    List.mem_zipIdx_iff_getElem?.mp (List.mem_filter.mp hentry).1
  have hplace : place < batch.attempts := h.attempts_eq ▸ (List.getElem?_eq_some_iff.mp hdrawn).1
  have hattempts := h.attempts_le
  have hn : (UInt64.ofNat place).toNat = place := UInt64.toNat_ofNat_of_lt' (by
    have : 4 < UInt64.size := by decide
    omega)
  obtain ⟨result, hresult, hsame⟩ := h.attempt_eq (UInt64.ofNat place) (hn.symm ▸ hplace)
  obtain ⟨other, hother, htext⟩ := exists_attempt (show place < 4 by omega)
  obtain rfl := Except.ok.inj (hresult.symm.trans hother)
  rw [hn, hdrawn, Option.some.injEq] at hsame
  rw [hsame, htext]

/-- Of two examples that are asked for there is one: it is found by the first attempt, and the two
others use up the budget. -/
theorem sampled_of_batch_ask :
    ((phrasebook.countUnit ask none).run ∅).1 = .ok (.finite 2) ∧
    Strategy.choose (some 2) (.finite 2) options.samplingDivisor = .randomSampling ∧
    2 + retryBudget 2 (.finite 2) options.maxLoopFactor < UInt64.size ∧
    ∃ batch drawn, ((phrasebook.batch options ask (some 2) seed).run ∅).1 = .ok batch ∧
      batch.Sampled 2 2 attempt drawn ∧ batch.attempts = 3 ∧ batch.duplicates = 2 ∧
      batch.examples.map (·.text) = ["help"] := by
  have hchosen : Strategy.choose (some 2) (.finite 2) options.samplingDivisor =
      .randomSampling := choose_ask (Nat.le_refl 2)
  have hbudget : retryBudget 2 (.finite 2) options.maxLoopFactor = 2 := by decide
  have hsize : 2 + retryBudget 2 (.finite 2) options.maxLoopFactor < UInt64.size := by decide
  refine ⟨count_ask, hchosen, hsize, ?_⟩
  rcases Registry.sampled_of_batch seed count_ask hchosen hsize with
    ⟨batch, drawn, hbatch, h⟩ | ⟨n, error, -, hn, herror, -⟩
  · rw [hbudget] at h
    have htexts : batch.examples.map (·.text) = List.replicate batch.examples.length "help" := by
      rw [← List.length_map (·.text)]
      refine List.eq_replicate_of_mem fun text hmem => ?_
      obtain ⟨e, he, rfl⟩ := List.mem_map.mp hmem
      exact text_of_sampled h he
    have hfew : batch.examples.length ≤ 1 := List.nodup_replicate.mp (htexts ▸ h.nodup)
    have hduplicates : batch.duplicates = 2 := h.short_iff.mp (by omega)
    have hsplit := h.attempts_split
    have hsome : 0 < batch.examples.length :=
      List.length_pos_iff.mpr (h.examples_ne_nil (by omega))
    have hone : batch.examples.length = 1 := by omega
    refine ⟨batch, drawn, hbatch, h, by omega, hduplicates, ?_⟩
    rw [htexts, hone]
    rfl
  · rw [hbudget] at hn
    obtain ⟨drawn, hdrawn, -⟩ := exists_attempt hn
    rw [Registry.drawAttempt, UInt64.ofNat_toNat] at hdrawn
    exact nomatch hdrawn.symm.trans herror

end Murmur

end Phrasebook
