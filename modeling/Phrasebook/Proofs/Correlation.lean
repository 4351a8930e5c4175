import Phrasebook.Proofs.Capacity
import Phrasebook.Proofs.DrawingSteps
import Phrasebook.Proofs.Draws
import Phrasebook.Proofs.Occurrences
import Phrasebook.Proofs.Scripts

/-! Decisions on named keys are taken once. Drawing goes from left to right and never takes a decision
back, so that what held of a content when its presence was drawn still holds at the end of the run.
The decisions at the end therefore explain the whole example: each content with a named key, however
deep and in whatever unit, is there just if the decision on its key says so. -/

namespace Phrasebook

open Std

variable {Source : Type} [RandomSource Source] {registry : Registry}

/-- What is drawn is derived as the decisions at the end of the run admit, if a draw about the presence
of a content admits it and further decisions keep it admitted; `fit` is an invariant of the
decisions. -/
theorem Registry.Draws.derives_at_end {good : Modifiers → Prop} {fit : Decisions → Prop}
    {admits : Decisions → Modifiers → Bool → Prop}
    (hkept : ∀ {decisions later : Decisions}, decisions.Within later → ∀ modifiers present,
      admits decisions modifiers present → admits later modifiers present)
    (hinclusion : ∀ modifiers (state : SampleState Source), good modifiers → fit state.decisions →
      Gives modifiers.drawInclusion state fun present state' => fit state'.decisions ∧
        state.decisions.Within state'.decisions ∧ admits state'.decisions modifiers present)
    (hregistry : ∀ modifiers ∈ registry.modifiersWithin, good modifiers)
    {phrase : Phrase} {state state' : SampleState Source} {e : Example}
    (h : registry.Draws phrase state e state')
    (hgood : ∀ modifiers ∈ phrase.modifiersWithin, good modifiers)
    (hfit : fit state.decisions) :
    fit state'.decisions ∧ state.decisions.Within state'.decisions ∧
      registry.Derives (admits state'.decisions) phrase e := by
  induction h with
  | word text state => exact ⟨hfit, .refl _, .word text⟩
  | absent hmodifiers hresolves hrun =>
    obtain ⟨hfit₁, hwithin, habsent⟩ :=
      (hinclusion _ _ (hgood _ (Content.modifiers_mem_within hmodifiers)) hfit).of_run_ok hrun
    exact ⟨hfit₁, hwithin, .absent hmodifiers hresolves habsent⟩
  | wordGroup hrun hrun' =>
    obtain ⟨hfit₁, hwithin, hpresent⟩ :=
      (hinclusion _ _ (hgood _ (Content.modifiers_mem_within rfl)) hfit).of_run_ok hrun
    obtain ⟨hforms, hsame⟩ := Modifiers.mem_forms_of_drawForm hrun'
    rw [hsame]
    exact ⟨hfit₁, hwithin, .wordGroup hpresent hforms⟩
  | choice hrun _ hrun' ih =>
    obtain ⟨hfit₁, hwithin₁, hpresent⟩ :=
      (hinclusion _ _ (hgood _ (Content.modifiers_mem_within rfl)) hfit).of_run_ok hrun
    obtain ⟨hfit₂, hwithin₂, hbranches⟩ :=
      ih (fun modifiers h => hgood modifiers (List.mem_cons_of_mem _ h)) hfit₁
    obtain ⟨hforms, hsame⟩ := Modifiers.mem_forms_of_drawForm hrun'
    rw [hsame]
    exact ⟨hfit₂, hwithin₁.trans hwithin₂, .choice (hkept hwithin₂ _ _ hpresent) hbranches hforms⟩
  | reference htarget hrun _ hrun' ih =>
    obtain ⟨hfit₁, hwithin₁, hpresent⟩ :=
      (hinclusion _ _ (hgood _ (Content.modifiers_mem_within rfl)) hfit).of_run_ok hrun
    obtain ⟨hfit₂, hwithin₂, hpool⟩ :=
      ih (fun modifiers h => hregistry modifiers (Phrase.mem_modifiersWithin_pool htarget h)) hfit₁
    obtain ⟨hforms, hsame⟩ := Modifiers.mem_forms_of_drawForm hrun'
    rw [hsame]
    exact ⟨hfit₂, hwithin₁.trans hwithin₂,
      .reference htarget (hkept hwithin₂ _ _ hpresent) hpool hforms⟩
  | nil state => exact ⟨hfit, .refl _, .nil⟩
  | cons _ _ ihfirst ihsecond =>
    obtain ⟨hfit₁, hwithin₁, hfirst⟩ :=
      ihfirst (fun modifiers h => hgood modifiers (List.mem_append_left _ h)) hfit
    obtain ⟨hfit₂, hwithin₂, hsecond⟩ :=
      ihsecond (fun modifiers h => hgood modifiers (List.mem_append_right _ h)) hfit₁
    exact ⟨hfit₂, hwithin₁.trans hwithin₂, .cons (hfirst.mono (hkept hwithin₂)) hsecond⟩
  | branch hrun hbranch _ ih =>
    have hmem := List.mem_of_getElem? hbranch
    obtain ⟨hfit₁, hwithin, hcontents⟩ := ih
      (fun modifiers h => hgood modifiers (Rule.mem_modifiersWithinAll.mpr ⟨_, hmem, h⟩))
      (SampleM.decisions_of_index hrun ▸ hfit)
    rw [SampleM.decisions_of_index hrun] at hwithin
    exact ⟨hfit₁, hwithin, .branch hmem hcontents⟩
  | rule hrun hrule _ hcase hfinish ih =>
    have hmem := List.mem_of_getElem? hrule
    obtain ⟨hfit₁, hwithin, hcontents⟩ := ih
      (fun modifiers h => hgood modifiers (Rule.mem_modifiersWithinAll.mpr ⟨_, hmem, h⟩))
      (SampleM.decisions_of_index hrun ▸ hfit)
    obtain ⟨hvariant, hsame⟩ := SampleM.mem_caseVariants_of_drawCase hcase
    rw [hsame]
    rw [SampleM.decisions_of_index hrun] at hwithin
    exact ⟨hfit₁, hwithin, .rule hmem hcontents hvariant hfinish⟩
  | pool hrules _ ih =>
    obtain ⟨hfit₁, hwithin, hrule⟩ :=
      ih (fun modifiers h => hgood modifiers (Phrase.mem_modifiersWithin_rules hrules h)) hfit
    exact ⟨hfit₁, hwithin, .pool hrules hrule⟩

namespace Modifiers

/-- Whether a content is there, or left out, as the decisions say. The key of a content with a named
key is decided, and the decision says whether the content is there. -/
def Follows (decisions : Decisions) (modifiers : Modifiers) (present : Bool) : Prop :=
  match modifiers.correlationKey with
  | some key =>
    ∃ decision, decisions[key]? = some decision ∧ present = modifiers.includedBy decision
  | none => if present then modifiers.canInclude else modifiers.canExclude

variable {decisions later : Decisions} {modifiers other : Modifiers} {present present' : Bool}

theorem follows_iff_of_key {key : String} (h : modifiers.correlationKey = some key) :
    modifiers.Follows decisions present ↔
      ∃ decision, decisions[key]? = some decision ∧ present = modifiers.includedBy decision := by
  simp only [Follows, h]

theorem Follows.mono (h : modifiers.Follows decisions present) (hwithin : decisions.Within later) :
    modifiers.Follows later present := by
  unfold Follows at h ⊢
  split at h
  · obtain ⟨decision, hdecision, hpresent⟩ := h
    exact ⟨decision, hwithin _ _ hdecision, hpresent⟩
  · exact h

/-- Of two contents with one key, both or neither are there, unless one is the opposite of the
other: then just one of them is. -/
theorem Follows.present_eq_iff {key : String} (h : modifiers.Follows decisions present)
    (h' : other.Follows decisions present') (hkey : modifiers.correlationKey = some key)
    (hkey' : other.correlationKey = some key) :
    present = present' ↔ modifiers.randomOpposite = other.randomOpposite := by
  obtain ⟨decision, hdecision, rfl⟩ := (follows_iff_of_key hkey).mp h
  obtain ⟨decision', hdecision', rfl⟩ := (follows_iff_of_key hkey').mp h'
  obtain rfl := Option.some.inj (hdecision.symm.trans hdecision')
  unfold includedBy
  cases decision <;> cases modifiers.randomOpposite <;> cases other.randomOpposite <;> decide

/-- Drawing the presence of a content keeps the decisions taken before, and the presence follows the
decisions known by then. -/
theorem drawInclusion_follows (modifiers : Modifiers) (state : SampleState Source) :
    Gives modifiers.drawInclusion state fun present state' =>
      state.decisions.Within state'.decisions ∧ modifiers.Follows state'.decisions present := by
  apply drawInclusion_ends
  · intro present source hkey hpresent
    refine ⟨.refl _, ?_⟩
    cases present <;> simpa [Follows, hkey] using hpresent
  · intro key decision hkey hdecision
    exact ⟨.refl _, (follows_iff_of_key hkey).mpr ⟨decision, hdecision, rfl⟩⟩
  · intro key decision source hkey hnone hdecision
    refine ⟨Decisions.within_insert hnone, (follows_iff_of_key hkey).mpr ⟨decision, ?_, rfl⟩⟩
    exact ExtTreeMap.getElem?_insert_self

end Modifiers

/-- Drawing a unit takes no decision back, and the decisions behind it explain the example: one
derivation brings it in which each content with a named key is there just as the decision on its key
says. So contents with one key are there together, and a content and its opposite never are. -/
theorem Registry.follows_of_drawUnit {maxDepth depth : Nat} {definition : Definition}
    {variation argument : Option String} {state state' : SampleState Source} {e : Example}
    (h : (registry.drawUnit maxDepth depth definition variation argument).run state =
      (.ok e, state')) :
    state.decisions.Within state'.decisions ∧
      registry.Derives (Modifiers.Follows state'.decisions) (.pool definition variation argument) e ∧
      ∀ (key : String) (a b : Modifiers) (presentA presentB : Bool),
        a.correlationKey = some key → b.correlationKey = some key →
        a.Follows state'.decisions presentA → b.Follows state'.decisions presentB →
        (presentA = presentB ↔ a.randomOpposite = b.randomOpposite) := by
  have hdraws := (registry.drawUnit_gives maxDepth depth definition variation argument
    state).of_run_ok h
  -- Nothing has to be known of the contents, or of the decisions taken before.
  obtain ⟨-, hwithin, hderives⟩ := @Registry.Draws.derives_at_end _ _ _ (fun _ => True)
    (fun _ => True) Modifiers.Follows (fun hwithin _ _ hfollows => hfollows.mono hwithin)
    (fun modifiers state _ _ => (modifiers.drawInclusion_follows state).mono
      (fun _ _ h => ⟨trivial, h⟩) fun _ _ h => h)
    (fun _ _ => trivial) _ _ _ _ hdraws (fun _ _ => trivial) trivial
  exact ⟨hwithin, hderives, fun key a b presentA presentB hkey hkey' h h' =>
    h.present_eq_iff h' hkey hkey'⟩

namespace Courtesy

/-- A decision against politeness that was taken before holds for the whole example. -/
theorem follows_of_drawUnit_ask : ∃ state',
    (phrasebook.drawUnit 4 3 ask none none).run
        { source := Script.mk [0], decisions := (∅ : Decisions).insert "polite" false } =
      (.ok (.ofText "help now"), state') ∧
    state'.decisions["polite"]? = some false ∧
    phrasebook.Derives (Modifiers.Follows state'.decisions) (.pool ask none none)
      (.ofText "help now") := by
  have hdrawn : ((phrasebook.drawUnit 4 3 ask none none).run
      { source := Script.mk [0], decisions := (∅ : Decisions).insert "polite" false }).1 =
      .ok (.ofText "help now") := by decide +kernel
  obtain ⟨hwithin, hderives, -⟩ := Registry.follows_of_drawUnit (Prod.ext hdrawn rfl)
  exact ⟨_, Prod.ext hdrawn rfl, hwithin "polite" false ExtTreeMap.getElem?_insert_self, hderives⟩

end Courtesy

end Phrasebook
