import Mathlib.Logic.Relation
import Phrasebook.Generation
import Phrasebook.Proofs.Capacity
import Phrasebook.Proofs.Occurrences

/-! Counting in any order. A pool that was counted inside itself goes into the memo as unbounded, and so
may the pools on the way to it. That does no harm where each loop that counting enters is a loop of
contents that may be there: the pools on it have no weight, and their counts are unbounded in any case.
A choice that can never be there is looked into all the same, so that a loop through it makes counts
depend on what was counted first. -/

namespace Phrasebook

open Relation

namespace Registry

/-- A pool that counting comes back to leads back to itself through contents that may be there. -/
def LoopsCounted (registry : Registry) : Prop :=
  ∀ pool, TransGen (registry.Uses .entered) pool pool → TransGen (registry.Uses .counted) pool pool

variable {registry : Registry}

/-- A phrase that has a weight is counted as that weight. -/
theorem weighed_kept (hloops : registry.LoopsCounted) :
    registry.KeptByCounting fun phrase count =>
      ∀ n, registry.Weighs phrase n → count = .ofNat n where
  word text n hweighs := by
    cases hweighs
    rfl
  wordGroup text modifiers n hweighs := by
    cases hweighs
    exact modifiers.weigh_ofNat 1
  choice {branches modifiers total} htotal n hweighs := by
    cases hweighs with
    | choice _ _ hbranches =>
      rw [htotal _ hbranches]
      exact modifiers.weigh_ofNat _
    | skippedChoice hskipped => exact Modifiers.weigh_of_skipped hskipped total
  reference {ref target total} htarget hpool n hweighs := by
    cases hweighs with
    | reference hother hinclude hweighs =>
      obtain rfl := Option.some.inj (htarget.symm.trans hother)
      rw [hpool hinclude _ hweighs]
      exact ref.modifiers.weigh_ofNat _
    | skippedReference hskipped => exact Modifiers.weigh_of_skipped hskipped total
  nil n hweighs := by
    cases hweighs
    rfl
  cons hfirst hrest n hweighs := by
    cases hweighs with
    | cons hcontent hcontents =>
      rw [hfirst _ hcontent, hrest _ hcontents]
      exact Possibilities.ofNat_mul _ _
  noBranch n hweighs := by
    cases hweighs
    rfl
  branch hfirst hrest n hweighs := by
    cases hweighs with
    | branch hcontents hbranches =>
      rw [hfirst _ hcontents, hrest _ hbranches]
      exact Possibilities.ofNat_add _ _
  pool hrules htotal n hweighs := by
    cases hweighs with
    | pool hother hbranches =>
      obtain rfl := Except.ok.inj (hrules.symm.trans hother)
      rw [htotal _ hbranches]
      exact Possibilities.doubledIf_ofNat _ _
  again hdefinition hself n hweighs :=
    (not_acc_of_transGen (hloops _ hself) (hweighs.acc _ (.pool hdefinition))).elim

theorem meets_counted {phrase : Phrase} {pool : PoolKey}
    (hincluded : ∀ modifiers ∈ phrase.modifiersWithin, modifiers.canInclude = true)
    (h : registry.Meets .entered phrase pool) : registry.Meets .counted phrase pool := by
  induction h with
  | choice _ _ ih =>
    refine .choice (hincluded _ List.mem_cons_self) (ih fun modifiers hmem => hincluded modifiers ?_)
    exact List.mem_cons_of_mem _ hmem
  | reference htarget hfollows => exact .reference htarget hfollows
  | contents _ _ ih =>
    refine .contents trivial (ih fun modifiers hmem => hincluded modifiers ?_)
    exact Content.mem_modifiersWithinAll.mpr ⟨_, List.mem_append_cons_self, hmem⟩
  | branches hbranch _ ih =>
    refine .branches hbranch (ih fun modifiers hmem => hincluded modifiers ?_)
    exact Rule.mem_modifiersWithinAll.mpr ⟨_, hbranch, hmem⟩
  | rules hrule _ ih =>
    refine .rules hrule (ih fun modifiers hmem => hincluded modifiers ?_)
    exact Rule.mem_modifiersWithinAll.mpr ⟨_, hrule, hmem⟩
  | pool hdefinition => exact .pool hdefinition

/-- Where every content may be there, so may those of each loop. -/
theorem loopsCounted_of_canInclude
    (h : ∀ modifiers ∈ registry.modifiersWithin, modifiers.canInclude = true) :
    registry.LoopsCounted := by
  intro pool hloop
  refine TransGen.mono (fun used user huses => ?_) pool pool hloop
  obtain ⟨definition, rules, hdefinition, hrules, rule, hrule, hmeets⟩ := huses
  refine ⟨definition, rules, hdefinition, hrules, rule, hrule,
    meets_counted (fun modifiers hmem => h modifiers ?_) hmeets⟩
  have hpool : modifiers ∈ (Phrase.pool definition user.variation none).modifiersWithin :=
    Phrase.mem_modifiersWithin_rules hrules (Rule.mem_modifiersWithinAll.mpr ⟨rule, hrule, hmem⟩)
  exact Phrase.mem_modifiersWithin_pool hdefinition hpool

variable {definition : Definition} {memo other : CountMemo}

theorem Counted.count_eq_error (hmemo : registry.Counted memo)
    (hdefinition : registry.get? definition.key = some definition) {variation : Option String}
    {error : TemplateError} (hrules : definition.rulesFor variation = .error error) :
    ((registry.countUnit definition variation).run memo).1 = .error (.template error) := by
  have hunknown : memo[(⟨definition.key, variation⟩ : PoolKey)]? = none := by
    by_contra hknown
    obtain ⟨count, hcount⟩ := Option.ne_none_iff_exists'.mp hknown
    have hpool := hmemo.tallied tells_kept _ _ hcount definition hdefinition
    obtain ⟨rules, hother⟩ := hpool.exists_rules
    simp [hrules] at hother
  unfold countUnit Definition.countPool
  rw [run_get_bind]
  simp only [hunknown]
  split
  · split
    · next found hfound =>
      obtain rfl := Except.error.inj (hfound.symm.trans hrules)
      rfl
    · next hfound => simp [hrules] at hfound
  · next hvisited => simp at hvisited

theorem Counted.exists_count (hmemo : registry.Counted memo) (hcheck : registry.check = .ok ())
    (hdefinition : registry.get? definition.key = some definition) {variation : Option String}
    {rules : List Rule} (hrules : definition.rulesFor variation = .ok rules) :
    ∃ count, ((registry.countUnit definition variation).run memo).1 = .ok count := by
  have hown (found : Definition) (hfound : registry.get? definition.key = some found) :
      found = definition := Option.some.inj (hfound.symm.trans hdefinition)
  have hunit := count_unit tells_kept hown variation none (hmemo.tallied tells_kept)
  have hsucceeds : Succeeds (registry.countUnit definition variation) memo fun _ _ => True :=
    hunit.mono (fun _ _ _ => trivial)
      fun _ _ hfailed => hfailed.1 ⟨hcheck, hdefinition, rules, hrules⟩
  obtain ⟨count, memo', hrun, -⟩ := hsucceeds.exists_run
  exact ⟨count, congrArg Prod.fst hrun⟩

/-- A number that is counted with one memo is counted with every other. -/
theorem Counted.count_eq_finite (hmemo : registry.Counted memo) (hother : registry.Counted other)
    (hcheck : registry.check = .ok ()) (hloops : registry.LoopsCounted)
    (hdefinition : registry.get? definition.key = some definition) {variation : Option String}
    {n : UInt64} {count : Possibilities}
    (hfinite : ((registry.countUnit definition variation).run memo).1 = .ok (.finite n))
    (hcount : ((registry.countUnit definition variation).run other).1 = .ok count) :
    count = .finite n := by
  have hweighs : registry.Weighs (.pool definition variation none) n.toNat :=
    weighs_of_countUnit hcheck hdefinition hmemo hfinite
  have hfits := hother.fitsPool (weighed_kept hloops) hdefinition hcount
  rw [hfits.fits none _ hweighs, Possibilities.ofNat_toNat]

theorem Counted.countUnit_eq (hmemo : registry.Counted memo) (hother : registry.Counted other)
    (hcheck : registry.check = .ok ()) (hloops : registry.LoopsCounted)
    (hdefinition : registry.get? definition.key = some definition) (variation : Option String) :
    ((registry.countUnit definition variation).run memo).1 =
      ((registry.countUnit definition variation).run other).1 := by
  cases hrules : definition.rulesFor variation with
  | error error =>
    rw [hmemo.count_eq_error hdefinition hrules, hother.count_eq_error hdefinition hrules]
  | ok rules =>
    obtain ⟨count, hcount⟩ := hmemo.exists_count hcheck hdefinition hrules
    obtain ⟨count', hcount'⟩ := hother.exists_count hcheck hdefinition hrules
    rw [hcount, hcount']
    cases count with
    | finite n => rw [hmemo.count_eq_finite hother hcheck hloops hdefinition hcount hcount']
    | unbounded =>
      cases count' with
      | finite n => rw [hother.count_eq_finite hmemo hcheck hloops hdefinition hcount' hcount]
      | unbounded => rfl

/-- What was counted before has no effect on a count, nor on what is made for an intent. -/
theorem countUnit_eq_of_counted (hcheck : registry.check = .ok ()) (hloops : registry.LoopsCounted)
    (hdefinition : registry.get? definition.key = some definition)
    (hmemo : registry.Counted memo) (hother : registry.Counted other) :
    (∀ variation, ((registry.countUnit definition variation).run memo).1 =
      ((registry.countUnit definition variation).run other).1) ∧
    ∀ options, ((registry.generateIntent options definition).run memo).1 =
      ((registry.generateIntent options definition).run other).1 := by
  have hcount := hmemo.countUnit_eq hother hcheck hloops hdefinition
  refine ⟨hcount, fun options => ?_⟩
  have hbatch (requested : Option Nat) (seed : UInt64) :
      ((registry.batch options definition requested seed).run memo).1 =
        ((registry.batch options definition requested seed).run other).1 := by
    refine run_bind_fst_congr (hcount none) fun possibilities t t' => ?_
    split <;> rfl
  exact run_bind_fst_congr (hbatch _ _) fun _ _ _ => rfl

end Registry

namespace Courtesy

theorem loopsCounted : phrasebook.LoopsCounted :=
  Registry.loopsCounted_of_canInclude (by decide +kernel)

/-- The intent is counted, and its examples are made, as if the unit that refers to itself had not
been counted before. -/
theorem countUnit_ask_of_counted :
    ((phrasebook.countUnit ask none).run ((phrasebook.countUnit echo none).run ∅).2).1 =
      ((phrasebook.countUnit ask none).run ∅).1 := by
  have hecho : phrasebook.Counted ((phrasebook.countUnit echo none).run ∅).2 :=
    .unit none .start fun _ hother => Option.some.inj (hother.symm.trans (by rfl))
  exact (Registry.countUnit_eq_of_counted check_phrasebook loopsCounted get?_ask hecho .start).1 none

end Courtesy

/-! Two intents that refer to each other, one of them in a choice that can never be there. -/

namespace Reluctance

def ask : Definition where
  key := ⟨.intent, "ask"⟩
  rules := [{ contents := [.word "help",
    .choice [{ contents := [.reference { target := ⟨.intent, "beg"⟩ }] }] (.optional "" 0)] }]

def beg : Definition where
  key := ⟨.intent, "beg"⟩
  rules := [{ contents := [.word "please ", .reference { target := ask.key }] }]

def phrasebook : Registry := (Registry.ofUnits [ask, beg]).toOption.getD .empty

/-- The template is valid, but its second intent is unbounded once the first was counted. -/
theorem count_beg_of_count_ask : phrasebook.check = .ok () ∧
    phrasebook.get? beg.key = some beg ∧
    ((phrasebook.countUnit beg none).run ∅).1 = .ok (.finite 1) ∧
    ((phrasebook.countUnit beg none).run ((phrasebook.countUnit ask none).run ∅).2).1 =
      .ok .unbounded :=
  ⟨by decide +kernel, by rfl, by decide +kernel, by decide +kernel⟩

end Reluctance

end Phrasebook
