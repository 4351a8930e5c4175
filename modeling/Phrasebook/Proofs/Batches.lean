import Mathlib.Data.List.Nodup
import Phrasebook.Proofs.Distinct
import Phrasebook.Proofs.Picks
import Phrasebook.Proofs.Runs

/-! How many examples a batch has, and that no two of them have one text. Sampling takes an example
only if its text is new, a choice from all examples keeps their order, and all examples are told apart
by their texts first. -/

namespace Phrasebook

namespace SampleRun

variable {draw : Nat → Except GenerationError (Example × Synonyms)} {requested budget : Nat}

/-- Sampling keeps what each example that is drawn keeps, as long as more are needed and there is room
for duplicates. It stops where one of the two is over, or fails as the attempt that it has come to. -/
theorem continueWith_ends {kept : SampleRun → Prop}
    (hadd : ∀ run drawn, kept run → run.found.size < requested → run.duplicates < budget →
      draw run.attempts = .ok drawn → kept (run.add drawn)) (run : SampleRun) (h : kept run) :
    (∃ last, run.continueWith draw requested budget = .ok last ∧ kept last ∧
      ¬(last.found.size < requested ∧ last.duplicates < budget)) ∨
    ∃ past error, run.continueWith draw requested budget = .error error ∧ kept past ∧
      past.found.size < requested ∧ past.duplicates < budget ∧
      draw past.attempts = .error error := by
  fun_induction run.continueWith draw requested budget with
  | case1 run more error hdraw => exact .inr ⟨run, error, rfl, h, more.1, more.2, hdraw⟩
  | case2 run more drawn hdraw _ ih => exact ih (hadd run drawn h more.1 more.2 hdraw)
  | case3 run hover => exact .inl ⟨run, rfl, h, hover⟩

theorem continueWith_keeps {kept : SampleRun → Prop}
    (hadd : ∀ run drawn, kept run → run.found.size < requested → draw run.attempts = .ok drawn →
      kept (run.add drawn))
    (run : SampleRun) {last : SampleRun} (h : kept run)
    (hrun : run.continueWith draw requested budget = .ok last) : kept last := by
  rcases continueWith_ends (fun run drawn h hmore _ => hadd run drawn h hmore) run h with
    ⟨other, hother, hkept, -⟩ | ⟨_, _, herror, -⟩
  · exact Except.ok.inj (hother.symm.trans hrun) ▸ hkept
  · exact nomatch herror.symm.trans hrun

/-- Sampling fails as one of its draws does. -/
theorem exists_draw_error (run : SampleRun) {error : GenerationError}
    (h : run.continueWith draw requested budget = .error error) :
    ∃ attempt, draw attempt = .error error := by
  have hends := @continueWith_ends draw requested budget (fun _ => True)
    (fun _ _ _ _ _ _ => trivial) run trivial
  obtain ⟨_, hother, -⟩ | ⟨past, other, hother, -, -, -, hdraw⟩ := hends
  · exact nomatch hother.symm.trans h
  · exact ⟨past.attempts, Except.error.inj (hother.symm.trans h) ▸ hdraw⟩

/-- A run for so many examples: the texts seen are those of the examples found, which are all
different and not more than were asked for. -/
structure Sound (requested : Nat) (run : SampleRun) : Prop where
  mem_texts : ∀ text, text ∈ run.texts ↔ text ∈ run.found.toList.map (·.text)
  nodup : (run.found.toList.map (·.text)).Nodup
  size_le : run.found.size ≤ requested

theorem sound_empty : Sound requested {} := ⟨by simp, by simp, Nat.zero_le _⟩

theorem Sound.add {run : SampleRun} (h : run.Sound requested) (drawn : Example × Synonyms)
    (hmore : run.found.size < requested) : (run.add drawn).Sound requested := by
  unfold SampleRun.add
  split
  · exact ⟨h.mem_texts, h.nodup, h.size_le⟩
  next hnew =>
  rw [← Std.HashSet.mem_iff_contains, h.mem_texts] at hnew
  refine ⟨fun text => ?_, ?_, ?_⟩
  · simp only [Std.HashSet.mem_insert, Array.toList_push, List.map_append, List.map_cons,
      List.map_nil, List.mem_append, List.mem_singleton, beq_iff_eq, h.mem_texts]
    rw [or_comm, eq_comm]
  · rw [Array.toList_push, List.map_append, List.map_singleton, List.nodup_append]
    refine ⟨h.nodup, by simp, fun text htext other hother heq => ?_⟩
    rw [List.mem_singleton.mp hother] at heq
    exact hnew (heq ▸ htext)
  · rw [Array.size_push]
    exact hmore

/-- A run that has found all examples that were drawn, and no duplicates. -/
structure Finds (drawn : List (Example × Synonyms)) (run : SampleRun) : Prop where
  found_eq : run.found.toList = drawn.map (·.1)
  mem_texts : ∀ text, text ∈ run.texts ↔ text ∈ drawn.map (·.1.text)
  synonyms_eq : run.synonyms = drawn.foldl (fun table next => table.merge next.2) ∅
  attempts_eq : run.attempts = drawn.length
  duplicates_eq : run.duplicates = 0

theorem Finds.add {drawn : List (Example × Synonyms)} {run : SampleRun} (h : run.Finds drawn)
    {next : Example × Synonyms} (hnew : next.1.text ∉ drawn.map (·.1.text)) :
    (run.add next).Finds (drawn ++ [next]) := by
  unfold SampleRun.add
  rw [if_neg (by rwa [← Std.HashSet.mem_iff_contains, h.mem_texts])]
  constructor
  case found_eq => simp [h.found_eq]
  case mem_texts =>
    intro text
    simp only [Std.HashSet.mem_insert, h.mem_texts, beq_iff_eq, List.map_append, List.mem_append,
      List.map_singleton, List.mem_singleton]
    rw [or_comm, eq_comm]
  case synonyms_eq => rw [List.foldl_concat, ← h.synonyms_eq]
  case attempts_eq => rw [List.length_append, List.length_singleton, ← h.attempts_eq]
  case duplicates_eq => exact h.duplicates_eq

/-- A run for so many examples finds the first ones that are drawn, if their texts are different. -/
theorem continueWith_finds {drawn : List (Example × Synonyms)} (hbudget : 0 < budget)
    (hdraw : ∀ place next, drawn[place]? = some next → draw place = .ok next)
    (hnodup : (drawn.map (·.1.text)).Nodup) :
    ∃ run, SampleRun.continueWith draw drawn.length budget {} = .ok run ∧ run.Finds drawn := by
  have hadd (run : SampleRun) (next : Example × Synonyms)
      (h : ∃ past todo, drawn = past ++ todo ∧ run.Finds past)
      (hmore : run.found.size < drawn.length) (_ : run.duplicates < budget)
      (hnext : draw run.attempts = .ok next) :
      ∃ past todo, drawn = past ++ todo ∧ (run.add next).Finds past := by
    obtain ⟨past, todo, rfl, h⟩ := h
    have hsize : run.found.size = past.length := by
      rw [← Array.length_toList, h.found_eq, List.length_map]
    cases todo with
    | nil =>
      rw [List.append_nil] at hmore
      omega
    | cons first rest =>
      have hfirst := hdraw run.attempts first (by simp [h.attempts_eq])
      obtain rfl := Except.ok.inj (hnext.symm.trans hfirst)
      refine ⟨past ++ [next], rest, by simp, h.add fun hmem => ?_⟩
      rw [List.map_append, List.map_cons] at hnodup
      exact (List.nodup_append.mp hnodup).2.2 _ hmem _ List.mem_cons_self rfl
  have hnone : SampleRun.Finds [] {} := ⟨rfl, by simp, rfl, rfl, rfl⟩
  rcases continueWith_ends hadd {} ⟨[], drawn, rfl, hnone⟩ with
    ⟨last, hlast, ⟨past, todo, rfl, h⟩, hover⟩ |
      ⟨run, error, -, ⟨past, todo, rfl, h⟩, hmore, -, herror⟩
  · have hsize : last.found.size = past.length := by
      rw [← Array.length_toList, h.found_eq, List.length_map]
    rw [h.duplicates_eq, hsize, List.length_append] at hover
    obtain rfl : todo = [] := List.length_eq_zero_iff.mp (by omega)
    rw [List.append_nil] at hlast ⊢
    exact ⟨last, hlast, h⟩
  · have hsize : run.found.size = past.length := by
      rw [← Array.length_toList, h.found_eq, List.length_map]
    rw [hsize, ← h.attempts_eq] at hmore
    exact nomatch (hdraw _ _ (List.getElem?_eq_getElem hmore)).symm.trans herror

end SampleRun

theorem Strategy.choose_some_ne {requested : Nat} {possibilities : Possibilities}
    {divisor : UInt64} : Strategy.choose (some requested) possibilities divisor ≠ .exhaustive := by
  unfold Strategy.choose
  dsimp only
  split
  · simp
  · split <;> simp

namespace Registry

theorem keepChosen_sublist {α : Type} (chosen : List Nat) (items : List α) :
    (keepChosen chosen items).Sublist items := by
  have hkept : (keepChosen chosen items).Sublist (items.zipIdx.map (·.1)) :=
    List.filter_sublist.map _
  rwa [List.zipIdx_map_fst] at hkept

/-- Each index picked keeps the item at its place, and nothing else is kept. -/
theorem length_keepChosen {α : Type} {items : List α} {count : Nat} {chosen : List Nat}
    (h : Subset.Picks items.length count chosen) : (keepChosen chosen items).length = count := by
  have hplaces : (items.zipIdx.filter fun entry =>
        (Std.HashSet.ofList chosen).contains entry.2).map Prod.snd =
      (List.range' 0 items.length).filter (Std.HashSet.ofList chosen).contains := by
    rw [← List.zipIdx_map_snd, List.filter_map]
    rfl
  have hperm : ((List.range' 0 items.length).filter (Std.HashSet.ofList chosen).contains).Perm
      chosen := by
    refine (List.perm_ext_iff_of_nodup (.filter _ List.nodup_range') h.nodup).mpr fun place => ?_
    rw [List.mem_filter, Std.HashSet.contains_ofList, List.contains_iff_mem, List.mem_range'_1]
    exact ⟨fun hmem => hmem.2, fun hmem => ⟨by have := h.lt place hmem; omega, hmem⟩⟩
  calc (keepChosen chosen items).length
    _ = ((items.zipIdx.filter fun entry =>
          (Std.HashSet.ofList chosen).contains entry.2).map Prod.snd).length := by
      unfold keepChosen
      rw [List.length_map, List.length_map]
    _ = chosen.length := by rw [hplaces, hperm.length_eq]
    _ = count := h.length_eq

/-- What was made for a request: examples with different texts, not more than were asked for. -/
structure Fulfils (requested : Option Nat) (examples : List Example) : Prop where
  nodup : (examples.map (·.text)).Nodup
  length_le : ∀ count, requested = some count → examples.length ≤ count

variable {registry : Registry} {options : Options} {definition : Definition}
  {possibilities : Possibilities} {seed : UInt64} {batch : Batch}

theorem fulfils_of_sampleBatch {requested : Nat}
    (h : registry.sampleBatch options definition requested possibilities seed = .ok batch) :
    Fulfils (some requested) batch.examples := by
  unfold sampleBatch at h
  obtain ⟨run, hrun, hbatch⟩ := bind_eq_ok_iff.mp h
  obtain rfl := Except.ok.inj hbatch
  have hsound : run.Sound requested :=
    SampleRun.continueWith_keeps (fun _ drawn h hmore _ => h.add drawn hmore) {}
      SampleRun.sound_empty hrun
  refine ⟨hsound.nodup, fun count hcount => ?_⟩
  rw [Array.length_toList]
  exact Option.some.inj hcount ▸ hsound.size_le

theorem nodup_of_uniqueExamples {operation : Operation} {found : List Example × Synonyms}
    (h : registry.uniqueExamples options definition possibilities operation = .ok found) :
    (found.1.map (·.text)).Nodup := by
  unfold uniqueExamples at h
  dsimp only at h
  split at h
  · contradiction
  split at h
  · contradiction
  · obtain rfl := Except.ok.inj h
    exact nodup_map_distinctBy _

theorem fulfils_of_exhaustiveBatch
    (h : registry.exhaustiveBatch options definition possibilities = .ok batch) :
    Fulfils none batch.examples := by
  unfold exhaustiveBatch at h
  obtain ⟨found, hfound, hbatch⟩ := bind_eq_ok_iff.mp h
  obtain rfl := Except.ok.inj hbatch
  exact ⟨nodup_of_uniqueExamples hfound, nofun⟩

theorem fulfils_of_subsampleBatch {requested : Nat}
    (h : registry.subsampleBatch options definition requested possibilities seed = .ok batch) :
    Fulfils (some requested) batch.examples := by
  unfold subsampleBatch at h
  obtain ⟨found, hfound, hbatch⟩ := bind_eq_ok_iff.mp h
  obtain rfl := Except.ok.inj hbatch
  have hnodup := nodup_of_uniqueExamples hfound
  dsimp only
  split
  · next hfew => exact ⟨hnodup, fun count hcount => Option.some.inj hcount ▸ hfew⟩
  next hmany =>
  · refine ⟨((keepChosen_sublist _ _).map _).nodup hnodup, fun count hcount => ?_⟩
    obtain rfl := Option.some.inj hcount
    exact Nat.le_of_eq (length_keepChosen (Subset.picks_choose (Nat.le_of_not_le hmany) _))

theorem fulfils_of_batchOf {requested : Option Nat}
    (h : registry.batchOf options definition requested seed possibilities = .ok batch) :
    Fulfils requested batch.examples := by
  unfold batchOf at h
  split at h
  · exact fulfils_of_sampleBatch h
  · exact fulfils_of_subsampleBatch h
  · next hsampled hchosen =>
    obtain ⟨hnodup, -⟩ := fulfils_of_exhaustiveBatch h
    refine ⟨hnodup, fun count hcount => ?_⟩
    -- A request is either sampled or chosen from all examples.
    obtain rfl := hcount
    cases hstrategy : Strategy.choose (some count) possibilities options.samplingDivisor with
    | exhaustive => exact (Strategy.choose_some_ne hstrategy).elim
    | randomSampling => exact (hsampled count hstrategy rfl).elim
    | exhaustiveSubsample => exact (hchosen count hstrategy rfl).elim

/-- If as many examples are asked for and sampled as are drawn first, with different texts, it is
these. -/
theorem exists_sampleBatch_of_drawAttempt (options : Options) (possibilities : Possibilities)
    (drawn : List (Example × Synonyms))
    (hdraw : ∀ place next, drawn[place]? = some next →
      registry.drawAttempt options.maxDepth.toNat definition seed place = .ok next)
    (hnodup : (drawn.map (·.1.text)).Nodup) :
    ∃ batch, registry.sampleBatch options definition drawn.length possibilities seed = .ok batch ∧
      batch.strategy = .randomSampling ∧ batch.examples = drawn.map (·.1) ∧
      batch.synonyms = drawn.foldl (fun table next => table.merge next.2) ∅ := by
  have hbudget : 0 < retryBudget drawn.length possibilities options.maxLoopFactor :=
    Nat.le_max_left _ _
  obtain ⟨run, hrun, hfinds⟩ := SampleRun.continueWith_finds hbudget hdraw hnodup
  exact ⟨_, bind_eq_ok_iff.mpr ⟨run, hrun, rfl⟩, rfl, hfinds.found_eq, hfinds.synonyms_eq⟩

theorem exists_batch_of_drawAttempt (options : Options) {memo : CountMemo}
    (drawn : List (Example × Synonyms))
    (hcount : ((registry.countUnit definition none).run memo).1 = .ok possibilities)
    (hsampled : Strategy.choose (some drawn.length) possibilities options.samplingDivisor =
      .randomSampling)
    (hdraw : ∀ place next, drawn[place]? = some next →
      registry.drawAttempt options.maxDepth.toNat definition seed place = .ok next)
    (hnodup : (drawn.map (·.1.text)).Nodup) :
    ∃ batch, ((registry.batch options definition (some drawn.length) seed).run memo).1 = .ok batch ∧
      batch.examples = drawn.map (·.1) ∧
      batch.synonyms = drawn.foldl (fun table next => table.merge next.2) ∅ := by
  obtain ⟨batch, hbatch, -, hexamples⟩ :=
    exists_sampleBatch_of_drawAttempt options possibilities drawn hdraw hnodup
  refine ⟨batch, ?_, hexamples⟩
  rw [run_batch, hcount, ← hbatch]
  show registry.batchOf options definition (some drawn.length) seed possibilities = _
  unfold batchOf
  rw [hsampled]

end Registry

end Phrasebook
