import Phrasebook.Proofs.Enumeration
import Phrasebook.Proofs.Occurrences
import Phrasebook.Proofs.Scripts

/-! When a unit has examples at all. All examples are listed under one decision for each named key, and
a content refuses the decisions that its own percentage rules out. As long as some assignment suits
all contents, each phrase that is expanded has an example under it, so that nothing is listed empty.
Two contents with one key, at 0 and at 100 percent, rule out each other; drawing goes by the
percentage of the first of them and brings both, or neither. -/

namespace Phrasebook

namespace Modifiers

variable {modifiers : Modifiers} {s : String → Bool}

/-- The percentage of a content with a named key admits the decision that the assignment takes. -/
def Suits (s : String → Bool) (modifiers : Modifiers) : Prop :=
  ∀ key, modifiers.correlationKey = some key → s key ∈ decisionOutcomes modifiers.inclusionPercent

/-- Under an assignment that suits it, a content may be there, or be left out. -/
theorem Suits.exists_admits (h : modifiers.Suits s) : ∃ present, modifiers.Admits s present := by
  unfold Admits
  cases hkey : modifiers.correlationKey with
  | some key => exact ⟨_, h key hkey, rfl⟩
  | none =>
    rcases modifiers.canInclude_or_canExclude with hinclude | hexclude
    · exact ⟨true, by simpa using hinclude⟩
    · exact ⟨false, by simpa using hexclude⟩

theorem suits_of_admits {present : Bool} (h : modifiers.Admits s present) : modifiers.Suits s := by
  intro key hkey
  simp only [Admits, hkey] at h
  exact h.1

theorem exists_mem_forms (modifiers : Modifiers) (e : Example) : ∃ form, form ∈ modifiers.forms e := by
  obtain ⟨variant, hvariant⟩ := List.exists_mem_of_length_pos
    (Example.length_caseVariants_pos modifiers.varyCase e)
  exact ⟨_, List.mem_map_of_mem hvariant⟩

end Modifiers

/-- There are alternatives to choose from. -/
def Phrase.Offers : Phrase → Prop
  | .branches alternatives => alternatives ≠ []
  | .rules _ _ alternatives => alternatives ≠ []
  | _ => True

namespace Registry

variable {registry : Registry} {limit : Nat}

/-- No named key is at 0 percent in one content and at 100 in another. -/
def Consistent (registry : Registry) : Prop :=
  ∀ a ∈ registry.modifiersWithin, ∀ b ∈ registry.modifiersWithin, ∀ key,
    a.correlationKey = some key → b.correlationKey = some key →
      a.inclusionPercent = 0 → b.inclusionPercent < 100

/-- Whether some content with the key is at 100 percent. -/
def isCertain (registry : Registry) (key : String) : Bool :=
  registry.modifiersWithin.any fun modifiers =>
    modifiers.correlationKey = some key && 100 ≤ modifiers.inclusionPercent

/-- It suits all contents to decide a key positively just if a content with it is at 100 percent. -/
theorem Consistent.suits (h : registry.Consistent) :
    ∀ modifiers ∈ registry.modifiersWithin, modifiers.Suits registry.isCertain := by
  intro modifiers hmodifiers key hkey
  rw [mem_decisionOutcomes]
  cases hcertain : registry.isCertain key with
  | true =>
    obtain ⟨other, hother, hcertain⟩ := List.any_eq_true.mp hcertain
    rw [Bool.and_eq_true, decide_eq_true_eq, decide_eq_true_eq] at hcertain
    have hpercent : modifiers.inclusionPercent ≠ 0 := fun hzero =>
      UInt8.not_lt.mpr hcertain.2 (h modifiers hmodifiers other hother key hkey hcertain.1 hzero)
    exact Nat.pos_of_ne_zero fun hzero => hpercent (UInt8.toNat_inj.mp hzero)
  | false =>
    have hless := List.any_eq_false.mp hcertain modifiers hmodifiers
    rw [hkey, Bool.and_eq_true, decide_eq_true_eq, decide_eq_true_eq, and_iff_right rfl] at hless
    exact UInt8.lt_iff_toNat_lt.mp (UInt8.not_le.mp hless)

/-- What has a list of expansions and something to choose from has an example under each assignment
that suits all contents. -/
theorem Expands.exists_derives {table : Synonyms} {phrase : Phrase} {all : List Expansion}
    {s : String → Bool} (h : registry.Expands limit table phrase all)
    (hregistry : ∀ modifiers ∈ registry.modifiersWithin, modifiers.Suits s)
    (hsuits : ∀ modifiers ∈ phrase.modifiersWithin, modifiers.Suits s) (hoffers : phrase.Offers) :
    ∃ e, registry.Derives (Modifiers.Admits s) phrase e := by
  induction h with
  | word text => exact ⟨_, .word text⟩
  | @wordGroup text modifiers _ =>
    obtain ⟨present, hadmits⟩ := (hsuits modifiers List.mem_cons_self).exists_admits
    cases present with
    | false => exact ⟨_, .absent rfl trivial hadmits⟩
    | true =>
      obtain ⟨form, hform⟩ := modifiers.exists_mem_forms (.ofText text)
      exact ⟨form, .wordGroup hadmits hform⟩
  | @choice branches modifiers base hsome _ _ _ ih =>
    obtain ⟨present, hadmits⟩ := (hsuits modifiers List.mem_cons_self).exists_admits
    cases present with
    | false => exact ⟨_, .absent rfl trivial hadmits⟩
    | true =>
      obtain ⟨e, he⟩ := ih (fun _ hmem => hsuits _ (List.mem_cons_of_mem _ hmem)) hsome
      obtain ⟨form, hform⟩ := modifiers.exists_mem_forms e
      exact ⟨form, .choice hadmits he hform⟩
  | @skippedChoice branches modifiers _ hskipped =>
    obtain ⟨present, hadmits⟩ := (hsuits modifiers List.mem_cons_self).exists_admits
    cases present with
    | false => exact ⟨_, .absent rfl trivial hadmits⟩
    | true => simp [(Modifiers.admits_true_iff.mp hadmits).1] at hskipped
  | @reference ref target base htarget _ _ _ ih =>
    obtain ⟨present, hadmits⟩ := (hsuits ref.modifiers List.mem_cons_self).exists_admits
    cases present with
    | false => exact ⟨_, .absent rfl (Option.isSome_of_mem htarget) hadmits⟩
    | true =>
      obtain ⟨e, he⟩ := ih
        (fun _ hmem => hregistry _ (Phrase.mem_modifiersWithin_pool htarget hmem)) trivial
      obtain ⟨form, hform⟩ := ref.modifiers.exists_mem_forms e
      exact ⟨form, .reference htarget hadmits he hform⟩
  | @skippedReference ref target htarget hskipped =>
    obtain ⟨present, hadmits⟩ := (hsuits ref.modifiers List.mem_cons_self).exists_admits
    cases present with
    | false => exact ⟨_, .absent rfl (Option.isSome_of_mem htarget) hadmits⟩
    | true => simp [(Modifiers.admits_true_iff.mp hadmits).1] at hskipped
  | nil => exact ⟨_, .nil⟩
  | concat _ _ _ ihbefore ihall =>
    rw [Phrase.modifiersWithin, Content.modifiersWithinAll_append, List.forall_mem_append] at hsuits
    obtain ⟨first, hfirst⟩ := ihbefore hsuits.1 trivial
    obtain ⟨second, hsecond⟩ :=
      ihall (fun _ hmem => hsuits.2 _ (List.mem_append_left _ hmem)) trivial
    exact ⟨_, Derives.contents_append_iff.mpr
      ⟨first, hfirst, second, Derives.contents_singleton_iff.mpr hsecond, rfl⟩⟩
  | stop rest hpast ih =>
    rw [Phrase.modifiersWithin, Content.modifiersWithinAll_append, List.forall_mem_append] at hsuits
    -- An example of the contents before would be listed, but nothing is.
    obtain ⟨e, he⟩ := ih hsuits.1 trivial
    exact (Expansion.not_lists_nil ((hpast.lists_iff s e).mpr he)).elim
  | noBranch => exact (hoffers rfl).elim
  | @branch past branch _ _ _ _ _ _ ihall =>
    have hbranch : branch ∈ past ++ [branch] := List.mem_append_right _ List.mem_cons_self
    obtain ⟨e, he⟩ := ihall (fun _ hmem =>
      hsuits _ (Rule.mem_modifiersWithinAll.mpr ⟨branch, hbranch, hmem⟩)) trivial
    exact ⟨e, .branch hbranch he⟩
  | noRule definition argument => exact (hoffers rfl).elim
  | @rule definition argument past rule _ all _ _ hall hsome _ _ _ ihall =>
    have hrule : rule ∈ past ++ [rule] := List.mem_append_right _ List.mem_cons_self
    obtain ⟨e, he⟩ := ihall (fun _ hmem =>
      hsuits _ (Rule.mem_modifiersWithinAll.mpr ⟨rule, hrule, hmem⟩)) trivial
    -- The example is among the expansions of the rule, all of which can be finished.
    obtain ⟨expansion, hexpansion, -, rfl⟩ := (hall.lists_iff s e).mpr he
    obtain ⟨variant, hvariant⟩ := List.exists_mem_of_length_pos
      (Example.length_caseVariants_pos definition.varyCase expansion.result)
    obtain ⟨done, hdone, -⟩ := hsome _
      (List.mem_flatMap.mpr ⟨expansion, hexpansion, List.mem_map_of_mem hvariant⟩)
    exact ⟨_, .rule hrule he hvariant (Definition.finished?_eq_some_iff.mp hdone).1⟩
  | pool hrules _ ih =>
    obtain ⟨e, he⟩ := ih
      (fun _ hmem => hsuits _ (Phrase.mem_modifiersWithin_rules hrules hmem))
      (Definition.rulesFor_ne_nil hrules)
    exact ⟨e, .pool hrules he⟩

/-- Where no key is at 0 percent in one content and at 100 in another, all examples of a unit are at
least one, if they are found. -/
theorem examplesOf_ne_nil {definition : Definition} {variation argument : Option String}
    {examples : List Example} {state : ExpandState} (hconsistent : registry.Consistent)
    (hdefinition : registry.get? definition.key = some definition)
    (hrun : (registry.examplesOf limit definition variation argument).run {} =
      (.ok examples, state)) : examples ≠ [] := by
  obtain ⟨⟨all, hall, rfl⟩, -⟩ :=
    (registry.examplesOf_ends hdefinition caches_empty).of_run_ok hrun
  obtain ⟨e, he⟩ := hall.exists_derives hconsistent.suits
    (fun _ hmem => hconsistent.suits _ (Phrase.mem_modifiersWithin_pool hdefinition hmem)) trivial
  exact List.ne_nil_of_mem (hall.mem_results_iff.mpr ⟨_, he⟩)

end Registry

namespace Courtesy

theorem consistent : phrasebook.Consistent := by
  have hpercent : ∀ modifiers ∈ phrasebook.modifiersWithin, modifiers.inclusionPercent < 100 := by
    decide +kernel
  exact fun _ _ b hb _ _ _ _ => hpercent b hb

theorem examplesOf_ask_ne_nil : ∃ examples state,
    (phrasebook.examplesOf 8 ask none none).run {} = (.ok examples, state) ∧ examples ≠ [] := by
  obtain ⟨examples, state, hrun⟩ := exists_examples_ask
  exact ⟨examples, state, hrun, Registry.examplesOf_ne_nil consistent get?_ask hrun⟩

end Courtesy

/-! A template that passes its check, with an intent that is counted and drawn, but of which nothing is
listed: politeness is certain by its first content and ruled out by its last. -/

namespace Insistence

def ask : Definition where
  key := ⟨.intent, "ask"⟩
  rules := [{ contents := [
    .wordGroup "please " (.optional "polite" 100),
    .word "help",
    .wordGroup " thanks" (.optional "polite" 0)] }]

def phrasebook : Registry := (Registry.ofUnits [ask]).toOption.getD .empty

theorem get?_ask : phrasebook.get? ask.key = some ask := by rfl

theorem check_phrasebook : phrasebook.check = .ok () := by decide +kernel

theorem suits_of_derives {text : String} {modifiers : Modifiers} {e : Example} {s : String → Bool}
    (h : phrasebook.Derives (Modifiers.Admits s) (.content (.wordGroup text modifiers)) e) :
    modifiers.Suits s := by
  rcases Registry.Derives.wordGroup_iff.mp h with ⟨hpresent, -⟩ | ⟨habsent, -⟩
  · exact Modifiers.suits_of_admits hpresent
  · exact Modifiers.suits_of_admits habsent

theorem not_derives_ask (s : String → Bool) (e : Example) :
    ¬phrasebook.Derives (Modifiers.Admits s) (.pool ask none none) e := by
  intro h
  obtain ⟨rule, hrule, drawn, hcontents, -⟩ :=
    Registry.Derives.rules_iff.mp ((Registry.Derives.pool_iff rfl).mp h)
  obtain rfl := List.mem_singleton.mp hrule
  obtain ⟨_, hplease, _, hrest, -⟩ := Registry.Derives.contents_cons_iff.mp hcontents
  obtain ⟨_, -, _, hrest, -⟩ := Registry.Derives.contents_cons_iff.mp hrest
  obtain ⟨_, hthanks, -⟩ := Registry.Derives.contents_cons_iff.mp hrest
  have hcertain : s "polite" ∈ decisionOutcomes 100 := suits_of_derives hplease "polite" rfl
  have hexcluded : s "polite" ∈ decisionOutcomes 0 := suits_of_derives hthanks "polite" rfl
  cases hs : s "polite" with
  | true => simp [hs, decisionOutcomes] at hexcluded
  | false => simp [hs, decisionOutcomes] at hcertain

/-- The check is passed, one possibility is counted, and what is drawn is polite, but the list of all
examples is empty. -/
theorem examplesOf_ask_eq_nil : phrasebook.check = .ok () ∧
    phrasebook.get? ask.key = some ask ∧ ask.argumentName = none ∧
    ((phrasebook.countUnit ask none).run ∅).1 = .ok (.finite 1) ∧
    ((phrasebook.drawUnit 1 0 ask none none).run { source := Script.mk [0, 0] }).1 =
      .ok (.ofText "please help thanks") ∧
    ∃ state, (phrasebook.examplesOf 8 ask none none).run {} = (.ok [], state) := by
  have hcount : ((phrasebook.countUnit ask none).run ∅).1 = .ok (.finite 1) := by decide +kernel
  refine ⟨check_phrasebook, get?_ask, rfl, hcount, by decide +kernel, ?_⟩
  obtain ⟨examples, state, hrun, -⟩ :=
    ((Registry.weighs_of_countUnit check_phrasebook get?_ask .start hcount).examplesOf_succeeds
      check_phrasebook get?_ask nofun (by decide : 1 ≤ 8)).exists_run
  obtain ⟨⟨all, hall, rfl⟩, -⟩ :=
    (phrasebook.examplesOf_ends get?_ask Registry.caches_empty).of_run_ok hrun
  -- Whatever were listed would be derived under some assignment.
  have hnone : distinct (all.map (·.result)) = [] := by
    refine List.eq_nil_iff_forall_not_mem.mpr fun e he => ?_
    obtain ⟨s, hderives⟩ := hall.mem_results_iff.mp he
    exact not_derives_ask s e hderives
  exact ⟨state, hnone ▸ hrun⟩

end Insistence

end Phrasebook
