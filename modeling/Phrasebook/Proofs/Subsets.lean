import Phrasebook.Proofs.Batches
import Phrasebook.Proofs.Capacity
import Phrasebook.Proofs.PlainExpansion

/-! Choices from all examples. A choice keeps as many examples as are asked for, in their order.
Choosing and listing look for the same examples under the same limit, and only then does the one of
them leave any out. -/

namespace Phrasebook

open Std

/-- A batch that was chosen, for a request, from the batch of all examples. -/
structure Batch.ChosenFrom (batch all : Batch) (requested : Nat) : Prop where
  sublist : batch.examples.Sublist all.examples
  length_eq : batch.examples.length = min requested all.examples.length
  nodup : (batch.examples.map (·.text)).Nodup
  synonyms_eq : batch.synonyms = all.synonyms

namespace Registry

variable {registry : Registry} {options : Options} {definition : Definition}
  {possibilities : Possibilities} {requested : Nat} {seed : UInt64} {batch : Batch}
  {memo : CountMemo}

/-- What all examples are wanted for shows only in the error if there may be too many. -/
theorem uniqueExamples_congr {operation : Operation} {found : List Example × Synonyms}
    (h : registry.uniqueExamples options definition possibilities operation = .ok found)
    (other : Operation) :
    registry.uniqueExamples options definition possibilities other = .ok found := by
  unfold uniqueExamples at h ⊢
  dsimp only at h ⊢
  split at h
  · contradiction
  · next hfits =>
    rw [if_neg hfits]
    exact h

theorem chosenFrom_of_subsampleBatch
    (h : registry.subsampleBatch options definition requested possibilities seed = .ok batch) :
    ∃ all, registry.exhaustiveBatch options definition possibilities = .ok all ∧
      batch.ChosenFrom all requested := by
  have hnodup := (fulfils_of_subsampleBatch h).nodup
  unfold subsampleBatch at h
  obtain ⟨found, hfound, hbatch⟩ := bind_eq_ok_iff.mp h
  obtain rfl := Except.ok.inj hbatch
  refine ⟨_, bind_eq_ok_iff.mpr ⟨found, uniqueExamples_congr hfound .generateAll, rfl⟩, ?_⟩
  refine ⟨?_, ?_, hnodup, rfl⟩
  · dsimp only
    split
    · exact .refl _
    · exact keepChosen_sublist _ _
  · dsimp only
    split
    · next hfew => exact (Nat.min_eq_right hfew).symm
    · next hmany =>
      have hless : requested ≤ found.1.length := by omega
      rw [length_keepChosen (Subset.picks_choose hless _), Nat.min_eq_left hless]

/-- A batch that was chosen from all examples answers a request for a number of them. -/
theorem exists_subsampleBatch {wanted : Option Nat}
    (h : registry.batchOf options definition wanted seed possibilities = .ok batch)
    (hchosen : batch.strategy = .exhaustiveSubsample) : ∃ count, wanted = some count ∧
      registry.subsampleBatch options definition count possibilities seed = .ok batch := by
  unfold batchOf at h
  split at h
  · unfold sampleBatch at h
    obtain ⟨run, -, hbatch⟩ := bind_eq_ok_iff.mp h
    obtain rfl := Except.ok.inj hbatch
    contradiction
  · next count hchosen => exact ⟨count, rfl, h⟩
  · unfold exhaustiveBatch at h
    obtain ⟨found, -, hbatch⟩ := bind_eq_ok_iff.mp h
    obtain rfl := Except.ok.inj hbatch
    contradiction

/-! ### Counting once more -/

theorem run_countPool_of_known {definition : Definition} {variation : Option String}
    {visiting : List PoolKey} {countRules} {count : Possibilities}
    (h : memo[(⟨definition.key, variation⟩ : PoolKey)]? = some count) :
    (definition.countPool variation visiting countRules).run memo = (.ok count, memo) := by
  unfold Definition.countPool
  rw [run_get_bind, h]
  rfl

/-- The count of a unit is known behind counting it. -/
theorem countUnit_known (definition : Definition) (variation : Option String) (memo : CountMemo) :
    Gives (registry.countUnit definition variation) memo fun count memo' =>
      memo'[(⟨definition.key, variation⟩ : PoolKey)]? = some count := by
  unfold countUnit Definition.countPool
  refine ends_bind.mpr (ends_get.mpr ?_)
  split
  · next count hknown => exact hknown
  rw [dif_pos List.not_mem_nil]
  split
  · trivial
  · refine (gives_run _ memo).bind fun total memo' _ => ?_
    exact ends_bind.mpr (ends_modify.mpr (ends_pure.mpr ExtTreeMap.getElem?_insert_self))

theorem run_countUnit_again {variation : Option String}
    (h : ((registry.countUnit definition variation).run memo).1 = .ok possibilities) :
    (registry.countUnit definition variation).run
        ((registry.countUnit definition variation).run memo).2 =
      (.ok possibilities, ((registry.countUnit definition variation).run memo).2) :=
  run_countPool_of_known ((countUnit_known definition variation memo).of_run_ok (Prod.ext h rfl))

theorem fst_run_batch {wanted : Option Nat}
    (hcount : ((registry.countUnit definition none).run memo).1 = .ok possibilities) :
    ((registry.batch options definition wanted seed).run memo).1 =
      registry.batchOf options definition wanted seed possibilities := by
  rw [run_batch, hcount]
  rfl

/-- Where a request is met by a choice, all examples can be had too, before as well as behind it; the
choice is a part of them, in their order, as large as was asked for unless there are fewer. -/
theorem chosenFrom_of_batch
    (h : ((registry.batch options definition (some requested) seed).run memo).1 = .ok batch)
    (hchosen : batch.strategy = .exhaustiveSubsample) (other : UInt64) :
    ∃ all, ((registry.batch options definition none other).run memo).1 = .ok all ∧
      ((registry.batch options definition none other).run
        ((registry.batch options definition (some requested) seed).run memo).2).1 = .ok all ∧
      batch.ChosenFrom all requested := by
  rw [run_batch] at h
  obtain ⟨possibilities, hcount, hbatch⟩ := bind_eq_ok_iff.mp h
  obtain ⟨count, hrequested, hbatch⟩ := exists_subsampleBatch hbatch hchosen
  obtain rfl := Option.some.inj hrequested
  obtain ⟨all, hall, hfrom⟩ := chosenFrom_of_subsampleBatch hbatch
  refine ⟨all, (fst_run_batch hcount).trans hall, ?_, hfrom⟩
  rw [run_batch definition (some requested)]
  exact (fst_run_batch (congrArg Prod.fst (run_countUnit_again hcount))).trans hall

end Registry

/-! An intent with three texts, one of them by two rules. -/

namespace Teahouse

def order : Definition where
  key := ⟨.intent, "order"⟩
  rules := [{ contents := [.word "tea"] }, { contents := [.word "milk"] },
    { contents := [.word "water"] }, { contents := [.word "tea"] }]

def phrasebook : Registry := (Registry.ofUnits [order]).toOption.getD .empty

theorem get?_order : phrasebook.get? order.key = some order := by rfl

theorem count_order : ((phrasebook.countUnit order none).run ∅).1 = .ok (.finite 4) := by
  rfl

theorem enumerate_order : ∃ plain, phrasebook.enumerateUnit order none none = some plain ∧
    plain.map (·.result.text) = ["tea", "milk", "water", "tea"] := ⟨_, rfl, rfl⟩

theorem exists_uniqueExamples : ∃ found, found.1.length = 3 ∧ ∀ operation,
    phrasebook.uniqueExamples {} order (.finite 4) operation = .ok found := by
  have hcheck : phrasebook.check = .ok () := by rfl
  have hweighs : phrasebook.Weighs (.pool order none none) 4 :=
    Registry.weighs_of_countUnit hcheck get?_order .start count_order
  obtain ⟨examples, state, hrun, -⟩ := (hweighs.examplesOf_succeeds hcheck get?_order
    nofun (show 4 ≤ ({} : Options).expansionLimit.toNat by decide)).exists_run
  refine ⟨(distinctBy (·.text) examples, state.synonyms), ?_, fun operation => ?_⟩
  · obtain ⟨⟨all, hall, rfl⟩, -⟩ :=
      (Registry.examplesOf_ends get?_order Registry.caches_empty).of_run_ok hrun
    obtain ⟨plain, hplain, hsame⟩ := hall.enumerates (hall.open .nil)
    obtain ⟨_, hother, htexts⟩ := enumerate_order
    obtain rfl := Option.some.inj (hother.symm.trans (hplain get?_order))
    have hperm : ((distinctBy (·.text) (distinct (all.map (·.result)))).map (·.text)).Perm
        ["tea", "milk", "water"] := by
      refine (List.perm_ext_iff_of_nodup (nodup_map_distinctBy _) (by decide)).mpr fun text => ?_
      have hmem : text ∈ (distinct (all.map (·.result))).map (·.text) ↔
          text ∈ ["tea", "milk", "water", "tea"] := by
        rw [← htexts, ← distinct_map_congr hsame]
        simp
      rw [mem_map_distinctBy, hmem]
      simp only [List.mem_cons, List.not_mem_nil, or_false]
      tauto
    rw [← List.length_map, hperm.length_eq]
    rfl
  · unfold Registry.uniqueExamples
    dsimp only
    rw [if_neg (by decide), hrun]

/-- Two of the three texts are kept. -/
theorem chosenFrom_of_batch_order : ∃ batch all,
    ((phrasebook.batch {} order (some 2) 42).run ∅).1 = .ok batch ∧
    batch.strategy = .exhaustiveSubsample ∧
    ((phrasebook.batch {} order none 42).run ∅).1 = .ok all ∧ batch.ChosenFrom all 2 ∧
    batch.examples.length = 2 ∧ all.examples.length = 3 := by
  obtain ⟨found, hlength, hfound⟩ := exists_uniqueExamples
  obtain ⟨batch, hbatch, hchosen⟩ : ∃ batch,
      ((phrasebook.batch {} order (some 2) 42).run ∅).1 = .ok batch ∧
        batch.strategy = .exhaustiveSubsample := by
    rw [Registry.fst_run_batch count_order]
    exact ⟨_, bind_eq_ok_iff.mpr ⟨found, hfound .subsample, rfl⟩, rfl⟩
  obtain ⟨all, hall, -, hfrom⟩ := Registry.chosenFrom_of_batch hbatch hchosen 42
  have hthree : all.examples.length = 3 := by
    have hbatchOf := (Registry.fst_run_batch count_order).symm.trans hall
    obtain ⟨other, hother, hmade⟩ := bind_eq_ok_iff.mp hbatchOf
    obtain rfl := Except.ok.inj ((hfound .generateAll).symm.trans hother)
    obtain rfl := Except.ok.inj hmade
    exact hlength
  have htwo := hfrom.length_eq
  rw [hthree] at htwo
  exact ⟨batch, all, hbatch, hchosen, hall, hfrom, htwo, hthree⟩

end Teahouse

end Phrasebook
