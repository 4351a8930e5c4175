import Phrasebook.Proofs.Consistency
import Phrasebook.Proofs.Correlation

/-! What a percentage says of a content, and what is drawn. From the start of an example on, each
decision on a named key is one that the percentage of some content with this key admits. So a content is
drawn as its own percentage says wherever the contents with its key admit the same decisions; where they
do not, a content that can never be there by its own percentage may well be drawn. -/

namespace Phrasebook

open Std

variable {Source : Type} [RandomSource Source] {registry : Registry}

/-! ### The contents that drawing comes to -/

/-- Drawing a phrase of a unit inside `depth` units comes to a content: what stands before it is drawn,
and what it stands in is drawn to be there. -/
inductive Registry.ComesTo (registry : Registry) (maxDepth : Nat) :
    Nat → UnitKey → Phrase → SampleState Source → Content → SampleState Source → Prop
  | here {depth : Nat} {owner : UnitKey} (content : Content) (state : SampleState Source) :
      ComesTo registry maxDepth depth owner (.content content) state content state
  | choice {depth : Nat} {owner : UnitKey} {branches : List Rule} {modifiers : Modifiers}
      {met : Content} {state state₁ state₂ : SampleState Source} :
      modifiers.drawInclusion.run state = (.ok true, state₁) →
      ComesTo registry maxDepth depth owner (.branches branches) state₁ met state₂ →
      ComesTo registry maxDepth depth owner (.content (.choice branches modifiers)) state met state₂
  | reference {depth : Nat} {owner : UnitKey} {ref : Reference} {target : Definition}
      {met : Content} {state state₁ state₂ : SampleState Source} :
      registry.get? ref.target = some target →
      ref.modifiers.drawInclusion.run state = (.ok true, state₁) →
      ComesTo registry maxDepth depth owner
        (.pool target ref.variation ref.modifiers.argumentValue) state₁ met state₂ →
      ComesTo registry maxDepth depth owner (.content (.reference ref)) state met state₂
  | head {depth : Nat} {owner : UnitKey} {content : Content} {rest : List Content}
      {met : Content} {state state₁ : SampleState Source} :
      ComesTo registry maxDepth depth owner (.content content) state met state₁ →
      ComesTo registry maxDepth depth owner (.contents (content :: rest)) state met state₁
  | tail {depth : Nat} {owner : UnitKey} {content : Content} {rest : List Content} {e : Example}
      {met : Content} {state state₁ state₂ : SampleState Source} :
      (content.draw (registry.drawReference (registry.drawUnit maxDepth depth)) owner).run state =
        (.ok e, state₁) →
      ComesTo registry maxDepth depth owner (.contents rest) state₁ met state₂ →
      ComesTo registry maxDepth depth owner (.contents (content :: rest)) state met state₂
  | branch {depth : Nat} {owner : UnitKey} {branches : List Rule} {branch : Rule} {place : Nat}
      {met : Content} {state state₁ state₂ : SampleState Source} :
      (SampleM.index branches.length).run state = (.ok place, state₁) →
      branches[place]? = some branch →
      ComesTo registry maxDepth depth owner (.contents branch.contents) state₁ met state₂ →
      ComesTo registry maxDepth depth owner (.branches branches) state met state₂
  | pool {depth : Nat} {owner : UnitKey} {definition : Definition}
      {variation argument : Option String} {rules : List Rule} {met : Content}
      {state state₁ : SampleState Source} :
      depth < maxDepth → definition.rulesFor variation = .ok rules →
      ComesTo registry maxDepth (depth + 1) definition.key (.branches rules) state met state₁ →
      ComesTo registry maxDepth depth owner (.pool definition variation argument) state met state₁

/-! ### Where decisions come from -/

/-- The contents with the key admit the same decisions. -/
def Registry.AgreesOn (registry : Registry) (key : String) : Prop :=
  ∀ a ∈ registry.modifiersWithin, ∀ b ∈ registry.modifiersWithin,
    a.correlationKey = some key → b.correlationKey = some key →
      decisionOutcomes a.inclusionPercent = decisionOutcomes b.inclusionPercent

/-- Each decision is one that the percentage of some content with its key admits. -/
def Registry.Sourced (registry : Registry) (decisions : Decisions) : Prop :=
  ∀ (key : String) (decision : Bool), decisions[key]? = some decision →
    ∃ modifiers ∈ registry.modifiersWithin, modifiers.correlationKey = some key ∧
      decision ∈ decisionOutcomes modifiers.inclusionPercent

variable {decisions : Decisions} {state state' : SampleState Source} {modifiers : Modifiers}

theorem Registry.sourced_empty : registry.Sourced ∅ := by
  intro key decision h
  simp at h

theorem Registry.Sourced.insert {key : String} {decision : Bool} (h : registry.Sourced decisions)
    (hmem : modifiers ∈ registry.modifiersWithin) (hkey : modifiers.correlationKey = some key)
    (hdecision : decision ∈ decisionOutcomes modifiers.inclusionPercent) :
    registry.Sourced (decisions.insert key decision) := by
  intro other taken htaken
  rw [ExtTreeMap.getElem?_insert] at htaken
  split at htaken
  · next heq =>
    obtain rfl := LawfulEqOrd.eq_of_compare heq
    obtain rfl := Option.some.inj htaken
    exact ⟨modifiers, hmem, hkey, hdecision⟩
  · exact h other taken htaken

theorem Registry.Sourced.drawInclusion (h : registry.Sourced state.decisions)
    (hmem : modifiers ∈ registry.modifiersWithin) :
    Gives modifiers.drawInclusion state fun _ state' => registry.Sourced state'.decisions := by
  apply Modifiers.drawInclusion_ends
  · intro _ _ _ _
    exact h
  · intro _ _ _ _
    exact h
  · intro key decision source hkey _ hdecision
    exact h.insert hmem hkey hdecision

theorem Registry.Draws.sourced {phrase : Phrase} {e : Example}
    (h : registry.Draws phrase state e state')
    (hphrase : phrase.modifiersWithin ⊆ registry.modifiersWithin)
    (hstate : registry.Sourced state.decisions) : registry.Sourced state'.decisions := by
  have hinclusion (modifiers : Modifiers) (state : SampleState Source)
      (hmem : modifiers ∈ registry.modifiersWithin) (hstate : registry.Sourced state.decisions) :
      Gives modifiers.drawInclusion state fun _ state' => registry.Sourced state'.decisions ∧
        state.decisions.Within state'.decisions ∧ True :=
    ((hstate.drawInclusion hmem).and (modifiers.drawInclusion_follows state)).mono
      (fun _ _ h => ⟨h.1, h.2.1, trivial⟩) fun _ _ _ => trivial
  exact (@Registry.Draws.derives_at_end _ _ _ (· ∈ registry.modifiersWithin) registry.Sourced
    (fun _ _ _ => True) (fun _ _ _ h => h) hinclusion (fun _ hmem => hmem) _ _ _ _ h hphrase
    hstate).1

/-- Drawing comes to contents of the template only, and on the way to them each decision is taken as
the percentage of some content admits. -/
theorem Registry.ComesTo.sourced {maxDepth depth : Nat} {owner : UnitKey} {phrase : Phrase}
    {met : Content} (h : registry.ComesTo maxDepth depth owner phrase state met state')
    (hphrase : phrase.modifiersWithin ⊆ registry.modifiersWithin)
    (hstate : registry.Sourced state.decisions) :
    registry.Sourced state'.decisions ∧ met.modifiersWithin ⊆ registry.modifiersWithin := by
  induction h with
  | here content state => exact ⟨hstate, hphrase⟩
  | choice hrun _ ih =>
    have hmem := hphrase List.mem_cons_self
    exact ih (fun _ h => hphrase (List.mem_cons_of_mem _ h))
      ((hstate.drawInclusion hmem).of_run_ok hrun)
  | reference htarget hrun _ ih =>
    have hmem := hphrase List.mem_cons_self
    exact ih (fun _ h => Phrase.mem_modifiersWithin_pool htarget h)
      ((hstate.drawInclusion hmem).of_run_ok hrun)
  | head _ ih => exact ih (fun _ h => hphrase (List.mem_append_left _ h)) hstate
  | @tail depth owner content rest e met state state₁ state₂ hrun _ ih =>
    have hdraws : registry.Draws (.content content) state e state₁ :=
      (Registry.draw_content owner (fun ref state => Registry.draw_reference
        (registry.drawUnit_gives maxDepth depth)) content state).of_run_ok hrun
    exact ih (fun _ h => hphrase (List.mem_append_right _ h))
      (hdraws.sourced (fun _ h => hphrase (List.mem_append_left _ h)) hstate)
  | branch hrun hbranch _ ih =>
    have hmem := List.mem_of_getElem? hbranch
    refine ih (fun _ h => hphrase (Rule.mem_modifiersWithinAll.mpr ⟨_, hmem, h⟩)) ?_
    exact SampleM.decisions_of_index hrun ▸ hstate
  | pool _ hrules _ ih =>
    exact ih (fun _ h => hphrase (Phrase.mem_modifiersWithin_rules hrules h)) hstate

/-- Where the contents with its key admit the same decisions, a content that drawing comes to from the
start of an example on is drawn only if it may be there, and left out only if it may be left out. -/
theorem Registry.ComesTo.possible {maxDepth depth : Nat} {owner : UnitKey} {phrase : Phrase}
    {source : Source} {met : Content} {present : Bool} {later : SampleState Source}
    (h : registry.ComesTo maxDepth depth owner phrase { source } met state)
    (hphrase : phrase.modifiersWithin ⊆ registry.modifiersWithin)
    (hmodifiers : met.modifiers? = some modifiers)
    (hagrees : ∀ key, modifiers.correlationKey = some key → registry.AgreesOn key)
    (hrun : modifiers.drawInclusion.run state = (.ok present, later)) :
    if present then modifiers.canInclude = true else modifiers.canExclude = true := by
  obtain ⟨hsourced, hmet⟩ := h.sourced hphrase sourced_empty
  have hmem := hmet (Content.modifiers_mem_within hmodifiers)
  have hends : Gives modifiers.drawInclusion state fun present _ =>
      if present then modifiers.canInclude = true else modifiers.canExclude = true := by
    apply Modifiers.drawInclusion_ends
    · intro present _ _ hpossible
      exact hpossible
    · intro key decision hkey hdecision
      obtain ⟨other, hother, hotherKey, hadmits⟩ := hsourced key decision hdecision
      rw [hagrees key hkey other hother modifiers hmem hotherKey hkey] at hadmits
      exact Modifiers.possible_of_mem_decisionOutcomes
        (Modifiers.isOptional_of_correlationKey hkey) hadmits
    · intro key decision _ hkey _ hdecision
      exact Modifiers.possible_of_mem_decisionOutcomes
        (Modifiers.isOptional_of_correlationKey hkey) hdecision
  exact hends.of_run_ok hrun

/-! An intent with one key at two percentages, neither of which settles the decision. -/

namespace Moderation

/-- The content at the lower percentage. -/
def thanks : Modifiers := .optional "polite" 40

def ask : Definition where
  key := ⟨.intent, "ask"⟩
  rules := [{ contents := [
    .wordGroup "please " (.optional "polite" 60), .word "help", .wordGroup " thanks" thanks] }]

def phrasebook : Registry := (Registry.ofUnits [ask]).toOption.getD .empty

theorem agreesOn (key : String) : phrasebook.AgreesOn key := by
  have hboth : ∀ modifiers ∈ phrasebook.modifiersWithin,
      decisionOutcomes modifiers.inclusionPercent = [true, false] := by decide +kernel
  exact fun a ha b hb _ _ => (hboth a ha).trans (hboth b hb).symm

/-- A roll of 50 brings both contents, though it is not below the lower percentage. -/
theorem possible_thanks : ∃ state later,
    phrasebook.ComesTo 1 0 ask.key (.pool ask none none) { source := Script.mk [0, 50] }
      (.wordGroup " thanks" thanks) state ∧
    thanks.drawInclusion.run state = (.ok true, later) ∧ thanks.canInclude = true := by
  let polite : SampleState Script :=
    { source := Script.mk [], decisions := (∅ : Decisions).insert "polite" true }
  have hrule : (SampleM.index 1).run ({ source := Script.mk [0, 50] } : SampleState Script) =
      (.ok 0, { source := Script.mk [50] }) := by rfl
  have hplease : ((Content.wordGroup "please " (.optional "polite" 60)).draw
      (phrasebook.drawReference (phrasebook.drawUnit 1 1)) ask.key).run
        { source := Script.mk [50] } = (.ok (.ofText "please "), polite) := by rfl
  have hhelp : ((Content.word "help").draw
      (phrasebook.drawReference (phrasebook.drawUnit 1 1)) ask.key).run polite =
        (.ok (.ofText "help"), polite) := by rfl
  have hcomes : phrasebook.ComesTo 1 0 ask.key (.pool ask none none)
      { source := Script.mk [0, 50] } (.wordGroup " thanks" thanks) polite :=
    .pool (by decide) rfl (.branch hrule rfl (.tail hplease (.tail hhelp (.head (.here _ _)))))
  have hpresent : thanks.drawInclusion.run polite = (.ok true, polite) := by rfl
  have hask : phrasebook.get? ask.key = some ask := by rfl
  refine ⟨polite, polite, hcomes, hpresent, ?_⟩
  exact hcomes.possible (fun _ h => Phrase.mem_modifiersWithin_pool hask h) rfl
    (fun key _ => agreesOn key) hpresent

end Moderation

namespace Insistence

/-- The content that can never be there by its own percentage. -/
def thanks : Modifiers := .optional "polite" 0

/-- The check is passed, but a content that can never be there is drawn. -/
theorem thanks_drawn : phrasebook.check = .ok () ∧ ∃ state later,
    phrasebook.ComesTo 1 0 ask.key (.pool ask none none) { source := Script.mk [0, 0] }
      (.wordGroup " thanks" thanks) state ∧
    thanks.drawInclusion.run state = (.ok true, later) ∧ thanks.canInclude = false := by
  let polite : SampleState Script :=
    { source := Script.mk [], decisions := (∅ : Decisions).insert "polite" true }
  have hrule : (SampleM.index 1).run ({ source := Script.mk [0, 0] } : SampleState Script) =
      (.ok 0, { source := Script.mk [0] }) := by rfl
  have hplease : ((Content.wordGroup "please " (.optional "polite" 100)).draw
      (phrasebook.drawReference (phrasebook.drawUnit 1 1)) ask.key).run
        { source := Script.mk [0] } = (.ok (.ofText "please "), polite) := by rfl
  have hhelp : ((Content.word "help").draw
      (phrasebook.drawReference (phrasebook.drawUnit 1 1)) ask.key).run polite =
        (.ok (.ofText "help"), polite) := by rfl
  refine ⟨check_phrasebook, polite, polite, ?_, by rfl, by decide⟩
  exact .pool (by decide) rfl (.branch hrule rfl (.tail hplease (.tail hhelp (.head (.here _ _)))))

end Insistence

end Phrasebook
