import Phrasebook.Proofs.Alike
import Phrasebook.Proofs.Capacity
import Phrasebook.Proofs.Isolation

/-! A greater limit on lists changes no answer. The limit is looked at in three places, and at each
one it only decides whether the expansion goes on; so what succeeds under a limit does the same, step
by step, under a greater one. -/

namespace Phrasebook

/-- Wherever the first computation succeeds, the second one succeeds with the same result and leaves
the same state. -/
abbrev CarriesOver {ε σ α : Type} (x y : ExceptT ε (StateM σ) α) : Prop :=
  Alike False Eq (fun _ => True) x y

namespace CarriesOver

section Rules

variable {ε σ α : Type}

theorem refl (x : ExceptT ε (StateM σ) α) : CarriesOver x x := by
  rintro s _ rfl
  refine (gives_run x s).mono (fun a s' hrun => ⟨trivial, s', hrun, rfl⟩) ?_
  exact fun _ _ _ => False.elim

theorem throw (error : ε) (y : ExceptT ε (StateM σ) α) :
    CarriesOver (throw error : ExceptT ε (StateM σ) α) y := fun _ _ _ => False.elim

theorem run_eq {x y : ExceptT ε (StateM σ) α} (h : CarriesOver x y) {s s' : σ} {a : α}
    (hrun : x.run s = (.ok a, s')) : y.run s = (.ok a, s') := by
  obtain ⟨-, _, hy, rfl⟩ := (h s s rfl).of_run_ok hrun
  exact hy

end Rules

/-! ### The places where the limit is looked at -/

variable {limit limit' : Nat}

theorem checkLimit (hlimit : limit ≤ limit') (owner : UnitKey) (size : Nat) :
    CarriesOver (ExpandM.checkLimit limit owner size) (ExpandM.checkLimit limit' owner size) := by
  unfold ExpandM.checkLimit
  split
  · exact .throw _ _
  · next hroom =>
    rw [if_neg (Nat.not_lt.mpr (Nat.le_trans (Nat.le_of_not_lt hroom) hlimit))]
    exact .refl _

theorem combine (hlimit : limit ≤ limit') (owner : UnitKey) (left right : List Expansion) :
    CarriesOver (liftM (Expansion.combine limit owner left right) : ExpandM (List Expansion))
      (liftM (Expansion.combine limit' owner left right)) := by
  refine .of_except (fun all hall => ⟨trivial, ?_⟩) False.elim
  rw [Expansion.combine_eq] at hall ⊢
  split at hall
  · next hroom => rwa [if_pos (Nat.le_trans hroom hlimit)]
  · contradiction

theorem finishVariant (hlimit : limit ≤ limit') (definition : Definition) (rule : Rule)
    (argument : Option String) (decisions : Decisions) (found : Array Expansion)
    (variant : Example) :
    CarriesOver (definition.finishVariant limit rule argument decisions found variant)
      (definition.finishVariant limit' rule argument decisions found variant) := by
  unfold Definition.finishVariant
  dsimp only
  split
  · refine (refl _).bind fun _ _ => ?_
    split
    · exact refl _
    · exact (refl _).bind fun _ _ => (checkLimit hlimit _ _).bind fun _ _ => refl _
  · split
    · exact refl _
    · exact (refl _).bind fun _ _ => (checkLimit hlimit _ _).bind fun _ _ => refl _

/-! ### Expansion -/

section Contents

variable {first second : Reference → ExpandM (List Expansion)} {owner : UnitKey}

mutual

theorem expandContent (hlimit : limit ≤ limit')
    (hreference : ∀ ref, CarriesOver (first ref) (second ref)) : (content : Content) →
    CarriesOver (content.expand first limit owner) (content.expand second limit' owner)
  | .word _ => refl _
  | .wordGroup _ _ => refl _
  | .choice branches modifiers => by
    rw [Content.expand, Content.expand]
    split
    · exact throw _ _
    dsimp only
    split
    · exact (expandBranches hlimit hreference branches []).bind fun _ _ => refl _
    · exact refl _
  | .reference ref => hreference ref

theorem expandAll (hlimit : limit ≤ limit')
    (hreference : ∀ ref, CarriesOver (first ref) (second ref)) :
    (contents : List Content) → (before : List Expansion) →
    CarriesOver (Content.expandAll first limit owner before contents)
      (Content.expandAll second limit' owner before contents)
  | [], _ => refl _
  | content :: rest, before => by
    rw [Content.expandAll, Content.expandAll]
    refine (expandContent hlimit hreference content).bind fun alternatives _ => ?_
    refine (combine hlimit owner before alternatives).bind fun extended _ => ?_
    split
    · exact refl _
    · exact expandAll hlimit hreference rest extended

theorem expandRule (hlimit : limit ≤ limit')
    (hreference : ∀ ref, CarriesOver (first ref) (second ref)) : (rule : Rule) →
    CarriesOver (rule.expand first limit owner) (rule.expand second limit' owner)
  | { contents, .. } => expandAll hlimit hreference contents [{}]

theorem expandBranches (hlimit : limit ≤ limit')
    (hreference : ∀ ref, CarriesOver (first ref) (second ref)) :
    (branches : List Rule) → (before : List Expansion) →
    CarriesOver (Rule.expandBranches first limit owner before branches)
      (Rule.expandBranches second limit' owner before branches)
  | [], _ => refl _
  | branch :: rest, before => by
    rw [Rule.expandBranches, Rule.expandBranches]
    refine (expandRule hlimit hreference branch).bind fun expanded _ => ?_
    refine (checkLimit hlimit owner _).bind fun _ _ => ?_
    exact expandBranches hlimit hreference rest (before ++ expanded)

end

end Contents

theorem expandPool (hlimit : limit ≤ limit') (definition : Definition)
    (variation argument : Option String) (visiting : List PoolKey)
    {first second : (rules : List Rule) → definition.rulesFor variation = .ok rules →
      ⟨definition.key, variation⟩ ∉ visiting → Rule → ExpandM (List Expansion)}
    (h : ∀ rules hrules hfresh rule,
      CarriesOver (first rules hrules hfresh rule) (second rules hrules hfresh rule)) :
    CarriesOver (definition.expandPool limit variation argument visiting first)
      (definition.expandPool limit' variation argument visiting second) := by
  unfold Definition.expandPool
  refine (refl _).bind fun state _ => ?_
  split
  · exact refl _
  split
  · next hfresh =>
    split
    · exact refl _
    next rules hrules =>
    have hrule (found : Array Expansion) (rule : Rule) : CarriesOver
        (definition.expandRule limit argument (first rules hrules hfresh) found rule)
        (definition.expandRule limit' argument (second rules hrules hfresh) found rule) := by
      refine (h rules hrules hfresh rule).bind fun expansions _ => ?_
      exact .foldlM _ (fun found expansion _ _ => .foldlM _ (fun found variant _ _ =>
        finishVariant hlimit definition rule argument expansion.decisions found variant)
        trivial) trivial
    exact (Alike.foldlM rules (fun found rule _ _ => hrule found rule) trivial).bind
      fun _ _ => refl _
  · exact refl _

theorem expandReference (hlimit : limit ≤ limit') (registry : Registry) (visiting : List PoolKey)
    (ref : Reference) : CarriesOver (registry.expandReference limit visiting ref)
      (registry.expandReference limit' visiting ref) := by
  -- Each pool that is entered leaves fewer pools that can still be entered.
  induction hroom : registry.freshPools visiting using Nat.strongRecOn
    generalizing visiting ref with
  | ind room ih =>
    subst hroom
    cases htarget : registry.get? ref.target with
    | none =>
      rw [Registry.expandReference_of_none htarget, Registry.expandReference_of_none htarget]
      exact refl _
    | some target =>
      rw [Registry.expandReference_of_some htarget, Registry.expandReference_of_some htarget]
      refine Alike.bind (?_ : CarriesOver _ _) fun _ _ => refl _
      split
      · refine expandPool hlimit target _ _ visiting fun rules hrules hfresh rule => ?_
        have hless := registry.freshPools_cons_lt htarget hrules hfresh
        exact expandRule hlimit (fun inner => ih _ hless _ inner rfl) rule
      · exact refl _

theorem examplesOf (hlimit : limit ≤ limit') (registry : Registry) (definition : Definition)
    (variation argument : Option String) :
    CarriesOver (registry.examplesOf limit definition variation argument)
      (registry.examplesOf limit' definition variation argument) := by
  have hunit : CarriesOver (registry.expandUnit limit definition variation argument)
      (registry.expandUnit limit' definition variation argument) :=
    expandPool hlimit definition variation argument [] fun _ _ _ rule =>
      expandRule hlimit (expandReference hlimit registry _) rule
  exact hunit.bind fun _ _ => refl _

end CarriesOver

namespace Registry

/-- Examples that are found under a limit are found under each greater one, the same in the same
order, with the same synonyms met and the same pools kept on the way; so a unit whose examples are
not found under the greater limit has none under the smaller one. -/
theorem examplesOf_of_limit_le (registry : Registry) {limit limit' : Nat} (hlimit : limit ≤ limit')
    (definition : Definition) (variation argument : Option String) (start : ExpandState) :
    (∀ examples state,
      (registry.examplesOf limit definition variation argument).run start = (.ok examples, state) →
      (registry.examplesOf limit' definition variation argument).run start =
        (.ok examples, state)) ∧
    ∀ error state,
      (registry.examplesOf limit' definition variation argument).run start = (.error error, state) →
      ∃ error' state',
        (registry.examplesOf limit definition variation argument).run start =
          (.error error', state') := by
  have hcarries := CarriesOver.examplesOf hlimit registry definition variation argument
  exact ⟨fun examples state hrun => hcarries.run_eq hrun,
    fun error state hrun => hcarries.exists_error rfl hrun⟩

end Registry

namespace Courtesy

theorem examplesOf_ask_of_limit_le : 8 ≤ 100 ∧ ∃ examples state,
    (phrasebook.examplesOf 8 ask none none).run {} = (.ok examples, state) ∧
    (phrasebook.examplesOf 100 ask none none).run {} = (.ok examples, state) := by
  obtain ⟨examples, state, hrun⟩ := exists_examples_ask
  obtain ⟨hsame, -⟩ :=
    Registry.examplesOf_of_limit_le phrasebook (by decide : 8 ≤ 100) ask none none {}
  exact ⟨by decide, examples, state, hrun, hsame examples state hrun⟩

end Courtesy

end Phrasebook
