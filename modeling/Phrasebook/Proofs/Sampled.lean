import Phrasebook.Proofs.Correlation
import Phrasebook.Proofs.Enumeration

/-! Examples that are drawn are derived. Drawing takes decisions from left to right and never takes
one back, so that the decisions behind a run fix one assignment for the whole of it. Whether that
assignment is one under which the example is listed depends on the percentages: a key is rolled
against the percentage of its first content only. -/

namespace Phrasebook

open Std

variable {Source : Type} [RandomSource Source] {registry : Registry}

/-- What is drawn is derived, for every assignment that obeys the decisions taken, if a draw about
the presence of a content decides as `admits` asks for; `fit` is an invariant of the decisions. -/
theorem Registry.Draws.derives {good : Modifiers → Prop} {fit : Decisions → Prop}
    {admits : (String → Bool) → Modifiers → Bool → Prop}
    (hinclusion : ∀ modifiers (state : SampleState Source), good modifiers → fit state.decisions →
      Gives modifiers.drawInclusion state fun present state' => fit state'.decisions ∧
        state.decisions.Within state'.decisions ∧
        ∀ s, state'.decisions.ObeyedBy s → admits s modifiers present)
    (hregistry : ∀ modifiers ∈ registry.modifiersWithin, good modifiers)
    {phrase : Phrase} {state state' : SampleState Source} {e : Example}
    (h : registry.Draws phrase state e state')
    (hgood : ∀ modifiers ∈ phrase.modifiersWithin, good modifiers)
    (hfit : fit state.decisions) :
    fit state'.decisions ∧ state.decisions.Within state'.decisions ∧
      ∀ s, state'.decisions.ObeyedBy s → registry.Derives (admits s) phrase e := by
  obtain ⟨hfit', hwithin, hderives⟩ := @Registry.Draws.derives_at_end _ _ _ good fit
    (fun decisions modifiers present => ∀ s, decisions.ObeyedBy s → admits s modifiers present)
    (fun hwithin _ _ hadmits s hs => hadmits s (hwithin.obeyedBy hs)) hinclusion hregistry _ _ _ _ h
    hgood hfit
  exact ⟨hfit', hwithin, fun s hs => hderives.mono fun _ _ hadmits => hadmits s hs⟩

/-- The decisions are among those that the percentages of all contents with their keys admit. -/
def Registry.Fits (registry : Registry) (decisions : Decisions) : Prop :=
  ∀ modifiers ∈ registry.modifiersWithin, ∀ key decision, modifiers.correlationKey = some key →
    decisions[key]? = some decision → decision ∈ decisionOutcomes modifiers.inclusionPercent

/-- Where the contents with one key agree about its percentage, drawing decides as enumeration asks.
-/
theorem Registry.drawInclusion_admits (hshares : registry.SharesPercents) {modifiers : Modifiers}
    (hmodifiers : modifiers ∈ registry.modifiersWithin) {state : SampleState Source}
    (hfits : registry.Fits state.decisions) :
    Gives modifiers.drawInclusion state fun present state' => registry.Fits state'.decisions ∧
      state.decisions.Within state'.decisions ∧
      ∀ s, state'.decisions.ObeyedBy s → modifiers.Admits s present := by
  apply Modifiers.drawInclusion_ends
  · intro present source hkey hpresent
    refine ⟨hfits, .refl _, fun s _ => ?_⟩
    cases present <;> simpa [Modifiers.Admits, hkey] using hpresent
  · intro key decision hkey hdecision
    refine ⟨hfits, .refl _, fun s hs => ?_⟩
    simp only [Modifiers.Admits, hkey, hs key decision hdecision, and_true]
    exact hfits modifiers hmodifiers key decision hkey hdecision
  · intro key decision source hkey hnone hdecision
    refine ⟨fun other hother otherKey taken hotherKey htaken => ?_,
      Decisions.within_insert hnone, fun s hs => ?_⟩
    · rw [ExtTreeMap.getElem?_insert] at htaken
      split at htaken
      · next heq =>
        obtain rfl := LawfulEqOrd.eq_of_compare heq
        obtain rfl := Option.some.inj htaken
        rw [hshares other hother modifiers hmodifiers key hotherKey hkey]
        exact hdecision
      · exact hfits other hother otherKey taken hotherKey htaken
    · have hs := (Decisions.obeyedBy_insert (.inl hnone)).mp hs
      simp only [Modifiers.Admits, hkey, hs.2, and_true]
      exact hdecision

/-- An example that is drawn is among those that are enumerated, whatever the random choices and the
limits on either side, if the contents with one key agree about its percentage. -/
theorem Registry.drawn_mem_examplesOf {maxDepth limit : Nat} {definition : Definition}
    {source : Source} {e : Example} {examples : List Example} {state : SampleState Source}
    {expandState : ExpandState} (hshares : registry.SharesPercents)
    (hdefinition : registry.get? definition.key = some definition)
    (hdrawn : (registry.drawUnit maxDepth 0 definition none none).run { source } = (.ok e, state))
    (hexamples : (registry.examplesOf limit definition none none).run {} =
      (.ok examples, expandState)) :
    e ∈ examples := by
  obtain ⟨⟨all, hall, rfl⟩, -⟩ :=
    (registry.examplesOf_ends hdefinition Registry.caches_empty).of_run_ok hexamples
  have hdraws :=
    (registry.drawUnit_gives maxDepth 0 definition none none { source }).of_run_ok hdrawn
  obtain ⟨-, -, hderives⟩ := hdraws.derives
    (fun modifiers state hmodifiers => Registry.drawInclusion_admits hshares hmodifiers)
    (fun _ h => h) (fun _ => Phrase.mem_modifiersWithin_pool hdefinition)
    (fun _ _ _ _ _ h => by simp at h)
  obtain ⟨s, hs⟩ := state.decisions.exists_obeyedBy
  exact hall.mem_results_iff.mpr ⟨s, hderives s hs⟩

namespace Courtesy

theorem sharesPercents : phrasebook.SharesPercents := by
  have hpercent : ∀ modifiers ∈ phrasebook.modifiersWithin, modifiers.inclusionPercent = 50 := by
    decide +kernel
  exact fun a ha b hb _ _ _ => (hpercent a ha).trans (hpercent b hb).symm

theorem drawn_mem_examplesOf_ask : ∃ examples state,
    (phrasebook.examplesOf 8 ask none none).run {} = (.ok examples, state) ∧
      Example.ofText "please help thanks" ∈ examples := by
  obtain ⟨examples, state, hrun⟩ := exists_examples_ask
  have hdrawn : ((phrasebook.drawUnit 2 0 ask none none).run { source := Script.mk [0, 0, 0] }).1 =
      .ok (.ofText "please help thanks") := by decide +kernel
  exact ⟨examples, state, hrun,
    Registry.drawn_mem_examplesOf sharesPercents get?_ask (Prod.ext hdrawn rfl) hrun⟩

end Courtesy

end Phrasebook
