import Phrasebook.Proofs.Decisions
import Phrasebook.Proofs.Derivation
import Phrasebook.Proofs.Ends
import Phrasebook.Sampling

/-! Drawing an example as a relation between phrases, states and examples, for any source of random
choices: one rule for each thing that drawing does when all goes well, without the depth and the
errors. Every run that succeeds follows the rules, so that a fact about the examples drawn, or about
the state behind them, is proved by one induction over the rules. -/

namespace Phrasebook

variable {Source : Type} [RandomSource Source]

/-- Drawing an example from a phrase takes one state to another. -/
inductive Registry.Draws (registry : Registry) :
    Phrase → SampleState Source → Example → SampleState Source → Prop
  | word (text : String) (state : SampleState Source) :
      Draws registry (.content (.word text)) state (.ofText text) state
  | absent {content : Content} {modifiers : Modifiers} {state state₁ : SampleState Source} :
      content.modifiers? = some modifiers → registry.Resolves content →
      modifiers.drawInclusion.run state = (.ok false, state₁) →
      Draws registry (.content content) state {} state₁
  | wordGroup {text : String} {modifiers : Modifiers} {form : Example}
      {state state₁ state₂ : SampleState Source} :
      modifiers.drawInclusion.run state = (.ok true, state₁) →
      (modifiers.drawForm (.ofText text)).run state₁ = (.ok form, state₂) →
      Draws registry (.content (.wordGroup text modifiers)) state form state₂
  | choice {branches : List Rule} {modifiers : Modifiers} {e form : Example}
      {state state₁ state₂ state₃ : SampleState Source} :
      modifiers.drawInclusion.run state = (.ok true, state₁) →
      Draws registry (.branches branches) state₁ e state₂ →
      (modifiers.drawForm e).run state₂ = (.ok form, state₃) →
      Draws registry (.content (.choice branches modifiers)) state form state₃
  | reference {ref : Reference} {target : Definition} {e form : Example}
      {state state₁ state₂ state₃ : SampleState Source} :
      registry.get? ref.target = some target →
      ref.modifiers.drawInclusion.run state = (.ok true, state₁) →
      Draws registry (.pool target ref.variation ref.modifiers.argumentValue) state₁ e state₂ →
      (ref.modifiers.drawForm e).run state₂ = (.ok form, state₃) →
      Draws registry (.content (.reference ref)) state form state₃
  | nil (state : SampleState Source) : Draws registry (.contents []) state {} state
  | cons {content : Content} {rest : List Content} {first second : Example}
      {state state₁ state₂ : SampleState Source} :
      Draws registry (.content content) state first state₁ →
      Draws registry (.contents rest) state₁ second state₂ →
      Draws registry (.contents (content :: rest)) state (first.append second) state₂
  | branch {branches : List Rule} {branch : Rule} {place : Nat} {e : Example}
      {state state₁ state₂ : SampleState Source} :
      (SampleM.index branches.length).run state = (.ok place, state₁) →
      branches[place]? = some branch →
      Draws registry (.contents branch.contents) state₁ e state₂ →
      Draws registry (.branches branches) state e state₂
  | rule {definition : Definition} {argument : Option String} {rules : List Rule} {rule : Rule}
      {place : Nat} {e variant finished : Example}
      {state state₁ state₂ state₃ : SampleState Source} :
      (SampleM.index rules.length).run state = (.ok place, state₁) →
      rules[place]? = some rule →
      Draws registry (.contents rule.contents) state₁ e state₂ →
      (SampleM.drawCase definition.varyCase e).run state₂ = (.ok variant, state₃) →
      definition.finish rule argument variant = .ok finished →
      Draws registry (.rules definition argument rules) state finished
        { state₃ with synonyms := definition.recordSlot state₃.synonyms finished }
  | pool {definition : Definition} {variation argument : Option String} {rules : List Rule}
      {e : Example} {state state₁ : SampleState Source} :
      definition.rulesFor variation = .ok rules →
      Draws registry (.rules definition argument rules) state e state₁ →
      Draws registry (.pool definition variation argument) state e state₁

namespace Registry

variable {registry : Registry}

theorem drawIfIncluded_gives {modifiers : Modifiers} {draw : SampleM Source Example}
    {state : SampleState Source} {post : Example → SampleState Source → Prop}
    (drawn : SampleState Source → Example → SampleState Source → Prop)
    (hdraw : ∀ state₁, Gives draw state₁ (drawn state₁))
    (habsent : ∀ state₁, modifiers.drawInclusion.run state = (.ok false, state₁) → post {} state₁)
    (hpresent : ∀ state₁ e state₂ form state₃,
      modifiers.drawInclusion.run state = (.ok true, state₁) →
      drawn state₁ e state₂ → (modifiers.drawForm e).run state₂ = (.ok form, state₃) →
      post form state₃) :
    Gives (modifiers.drawIfIncluded draw) state post := by
  unfold Modifiers.drawIfIncluded
  refine (gives_run _ state).bind fun present state₁ hpresence => ?_
  cases present with
  | false => exact habsent state₁ hpresence
  | true =>
    refine (hdraw state₁).bind fun e state₂ he => ?_
    refine (gives_run _ state₂).mono (fun form state₃ hform => ?_) fun _ _ h => h
    exact hpresent state₁ e state₂ form state₃ hpresence he hform

section Contents

/-- For each reference, what is drawn is drawn from it. -/
def DrawsReferences (registry : Registry) (drawReference : Reference → SampleM Source Example) :
    Prop :=
  ∀ ref state, Gives (drawReference ref) state fun e state' =>
    registry.Draws (.content (.reference ref)) state e state'

variable {drawReference : Reference → SampleM Source Example} (owner : UnitKey)

mutual

theorem draw_content (hreference : registry.DrawsReferences drawReference) :
    (content : Content) → (state : SampleState Source) →
    Gives (content.draw drawReference owner) state fun e state' =>
      registry.Draws (.content content) state e state'
  | .word text, state => ends_pure.mpr (.word text state)
  | .wordGroup text modifiers, state =>
    drawIfIncluded_gives (fun state₁ e state₂ => e = .ofText text ∧ state₂ = state₁)
      (fun _ => ⟨rfl, rfl⟩) (fun _ => .absent rfl trivial) (by
        rintro state₁ _ _ form state₃ hpresence ⟨rfl, rfl⟩ hform
        exact .wordGroup hpresence hform)
  | .choice branches modifiers, state => by
    refine drawIfIncluded_gives (registry.Draws (.branches branches)) (fun state₁ => ?_)
      (fun _ => .absent rfl trivial) fun _ _ _ _ _ => .choice
    refine (gives_run _ state₁).bind fun place state₂ hplace => ?_
    refine (draw_nth hreference branches place state₂).mono ?_ fun _ _ h => h
    rintro e state₃ ⟨branch, hbranch, hdraws⟩
    exact .branch hplace hbranch hdraws
  | .reference ref, state => hreference ref state

theorem draw_contents (hreference : registry.DrawsReferences drawReference) :
    (rest : List Content) → (before : Example) → (state : SampleState Source) →
    Gives (Content.drawAll drawReference owner before rest) state fun all state' =>
      ∃ e, registry.Draws (.contents rest) state e state' ∧ all = before.append e
  | [], before, state => ends_pure.mpr ⟨{}, .nil state, (Example.append_empty before).symm⟩
  | content :: rest, before, state => by
    unfold Content.drawAll
    refine (draw_content hreference content state).bind fun first state₁ hfirst => ?_
    refine (draw_contents hreference rest (before.append first) state₁).mono ?_ fun _ _ h => h
    rintro all state₂ ⟨second, hsecond, rfl⟩
    exact ⟨first.append second, .cons hfirst hsecond, Example.append_assoc before first second⟩

theorem draw_rule (hreference : registry.DrawsReferences drawReference) :
    (rule : Rule) → (state : SampleState Source) →
    Gives (rule.draw drawReference owner) state fun e state' =>
      registry.Draws (.contents rule.contents) state e state'
  | { contents, .. }, state => by
    refine (draw_contents hreference contents {} state).mono ?_ fun _ _ h => h
    rintro _ state₁ ⟨e, he, rfl⟩
    rwa [Example.empty_append]

theorem draw_nth (hreference : registry.DrawsReferences drawReference) :
    (branches : List Rule) → (place : Nat) → (state : SampleState Source) →
    Gives (Rule.drawNth drawReference owner branches place) state fun e state' =>
      ∃ branch, branches[place]? = some branch ∧
        registry.Draws (.contents branch.contents) state e state'
  | [], _, _ => trivial
  | branch :: _, 0, state =>
    (draw_rule hreference branch state).mono (fun _ _ he => ⟨branch, rfl, he⟩) fun _ _ h => h
  | _ :: rest, place + 1, state => draw_nth hreference rest place state

end

end Contents

theorem draw_reference {ref : Reference} {state : SampleState Source}
    {drawUnit : Definition → Option String → Option String → SampleM Source Example}
    (hunit : ∀ target variation argument state, Gives (drawUnit target variation argument) state
      fun e state' => registry.Draws (.pool target variation argument) state e state') :
    Gives (registry.drawReference drawUnit ref) state fun e state' =>
      registry.Draws (.content (.reference ref)) state e state' := by
  unfold drawReference
  split
  · exact trivial
  · next target htarget =>
    exact drawIfIncluded_gives _ (hunit _ _ _) (fun _ => .absent rfl (Option.isSome_of_mem htarget))
      fun _ _ _ _ _ => .reference htarget

/-- Drawing a unit follows the rules, at any depth. -/
theorem drawUnit_gives (maxDepth depth : Nat) (definition : Definition)
    (variation argument : Option String) (state : SampleState Source) :
    Gives (registry.drawUnit maxDepth depth definition variation argument) state fun e state' =>
      registry.Draws (.pool definition variation argument) state e state' := by
  -- The room below the limit on depth shrinks with each unit that is entered.
  induction hroom : maxDepth - depth generalizing depth definition variation argument state with
  | zero =>
    rw [drawUnit, dif_neg (by omega)]
    exact trivial
  | succ room ih =>
    rw [drawUnit, dif_pos (by omega)]
    split
    · exact trivial
    next rules hrules =>
    refine (gives_run _ state).bind fun place state₁ hplace => ?_
    split
    · exact trivial
    next rule hrule =>
    have hdrawn := draw_rule definition.key (fun ref state => draw_reference
      fun target variation argument state =>
        ih (depth + 1) target variation argument state (by omega)) rule state₁
    refine hdrawn.bind fun e state₂ he => ?_
    refine (gives_run _ state₂).bind fun variant state₃ hvariant => ?_
    split
    · exact trivial
    · next finished hfinish => exact .pool hrules (.rule hplace hrule he hvariant hfinish)

end Registry

end Phrasebook
