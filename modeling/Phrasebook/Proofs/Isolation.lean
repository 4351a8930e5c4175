import Phrasebook.Proofs.Bindings
import Phrasebook.Proofs.CountOrder
import Phrasebook.Proofs.Runs

/-! An intent is made from its own units and no others. Counting, expanding and drawing look only at
the units that are referred to, directly or through others, so that two templates that agree on these
make the same of the intent. Where no unit refers to itself in the end, no pool is met inside itself,
and the counts that other intents leave behind are those that would be found anyway. -/

namespace Phrasebook

open Relation

/-! ### Contents whose references come to the same -/

section Counting

variable {first second : Reference → CountM Possibilities}

mutual

theorem Content.count_congr : (content : Content) →
    (∀ ref ∈ content.references, first ref = second ref) →
    content.count first = content.count second
  | .word _, _ => rfl
  | .wordGroup _ _, _ => rfl
  | .choice branches modifiers, h => by
    rw [Content.references] at h
    rw [Content.count, Content.count, Rule.countAll_congr branches h]
  | .reference ref, h => by
    rw [Content.count, Content.count, h ref (by simp [Content.references])]

theorem Content.countAll_congr : (contents : List Content) →
    (∀ ref ∈ Content.referencesOfAll contents, first ref = second ref) →
    Content.countAll first contents = Content.countAll second contents
  | [], _ => rfl
  | content :: rest, h => by
    rw [Content.referencesOfAll, List.forall_mem_append] at h
    rw [Content.countAll, Content.countAll, Content.count_congr content h.1,
      Content.countAll_congr rest h.2]

theorem Rule.count_congr : (rule : Rule) → (∀ ref ∈ rule.references, first ref = second ref) →
    rule.count first = rule.count second
  | { contents, .. }, h => by
    rw [Rule.references] at h
    exact Content.countAll_congr contents h

theorem Rule.countAll_congr : (rules : List Rule) →
    (∀ ref ∈ Rule.referencesOfAll rules, first ref = second ref) →
    Rule.countAll first rules = Rule.countAll second rules
  | [], _ => rfl
  | rule :: rest, h => by
    rw [Rule.referencesOfAll, List.forall_mem_append] at h
    rw [Rule.countAll, Rule.countAll, Rule.count_congr rule h.1, Rule.countAll_congr rest h.2]

end

end Counting

section Expanding

variable {first second : Reference → ExpandM (List Expansion)} {limit : Nat} {owner : UnitKey}

mutual

theorem Content.expand_congr : (content : Content) →
    (∀ ref ∈ content.references, first ref = second ref) →
    content.expand first limit owner = content.expand second limit owner
  | .word _, _ => rfl
  | .wordGroup _ _, _ => rfl
  | .choice branches modifiers, h => by
    rw [Content.references] at h
    rw [Content.expand, Content.expand, Rule.expandBranches_congr branches [] h]
  | .reference ref, h => by
    rw [Content.expand, Content.expand, h ref (by simp [Content.references])]

theorem Content.expandAll_congr : (contents : List Content) → (before : List Expansion) →
    (∀ ref ∈ Content.referencesOfAll contents, first ref = second ref) →
    Content.expandAll first limit owner before contents =
      Content.expandAll second limit owner before contents
  | [], _, _ => rfl
  | content :: rest, before, h => by
    rw [Content.referencesOfAll, List.forall_mem_append] at h
    rw [Content.expandAll, Content.expandAll, Content.expand_congr content h.1]
    congr 1
    funext all
    congr 1
    funext extended
    rw [Content.expandAll_congr rest extended h.2]

theorem Rule.expand_congr : (rule : Rule) → (∀ ref ∈ rule.references, first ref = second ref) →
    rule.expand first limit owner = rule.expand second limit owner
  | { contents, .. }, h => by
    rw [Rule.references] at h
    exact Content.expandAll_congr contents [{}] h

theorem Rule.expandBranches_congr : (branches : List Rule) → (before : List Expansion) →
    (∀ ref ∈ Rule.referencesOfAll branches, first ref = second ref) →
    Rule.expandBranches first limit owner before branches =
      Rule.expandBranches second limit owner before branches
  | [], _, _ => rfl
  | branch :: rest, before, h => by
    rw [Rule.referencesOfAll, List.forall_mem_append] at h
    rw [Rule.expandBranches, Rule.expandBranches, Rule.expand_congr branch h.1]
    congr 1
    funext all
    dsimp only
    rw [Rule.expandBranches_congr rest (before ++ all) h.2]

end

end Expanding

section Drawing

variable {Source : Type} [RandomSource Source] {first second : Reference → SampleM Source Example}
  {owner : UnitKey}

mutual

theorem Content.draw_congr : (content : Content) →
    (∀ ref ∈ content.references, first ref = second ref) →
    content.draw first owner = content.draw second owner
  | .word _, _ => rfl
  | .wordGroup _ _, _ => rfl
  | .choice branches modifiers, h => by
    rw [Content.references] at h
    rw [Content.draw, Content.draw]
    congr 2
    funext place
    exact Rule.drawNth_congr branches place h
  | .reference ref, h => by
    rw [Content.draw, Content.draw, h ref (by simp [Content.references])]

theorem Content.drawAll_congr : (contents : List Content) → (before : Example) →
    (∀ ref ∈ Content.referencesOfAll contents, first ref = second ref) →
    Content.drawAll first owner before contents = Content.drawAll second owner before contents
  | [], _, _ => rfl
  | content :: rest, before, h => by
    rw [Content.referencesOfAll, List.forall_mem_append] at h
    rw [Content.drawAll, Content.drawAll, Content.draw_congr content h.1]
    congr 1
    funext drawn
    exact Content.drawAll_congr rest (before.append drawn) h.2

theorem Rule.draw_congr : (rule : Rule) → (∀ ref ∈ rule.references, first ref = second ref) →
    rule.draw first owner = rule.draw second owner
  | { contents, .. }, h => by
    rw [Rule.references] at h
    exact Content.drawAll_congr contents {} h

theorem Rule.drawNth_congr : (branches : List Rule) → (place : Nat) →
    (∀ ref ∈ Rule.referencesOfAll branches, first ref = second ref) →
    Rule.drawNth first owner branches place = Rule.drawNth second owner branches place
  | [], _, _ => rfl
  | branch :: _, 0, h => by
    rw [Rule.referencesOfAll, List.forall_mem_append] at h
    rw [Rule.drawNth, Rule.drawNth, Rule.draw_congr branch h.1]
  | _ :: rest, place + 1, h => by
    rw [Rule.referencesOfAll, List.forall_mem_append] at h
    rw [Rule.drawNth, Rule.drawNth, Rule.drawNth_congr rest place h.2]

end

end Drawing

/-! ### Templates that agree -/

/-- A unit that the phrase refers to, or the unit of a pool. -/
def Phrase.Targets (unit : UnitKey) : Phrase → Prop
  | .content part => ∃ ref ∈ part.references, ref.target = unit
  | .contents all => ∃ ref ∈ Content.referencesOfAll all, ref.target = unit
  | .branches all => ∃ ref ∈ Rule.referencesOfAll all, ref.target = unit
  | .rules _ _ all => ∃ ref ∈ Rule.referencesOfAll all, ref.target = unit
  | .pool definition _ _ => definition.key = unit

namespace Registry

/-- The second unit refers to the first. -/
def Refers (registry : Registry) (used user : UnitKey) : Prop :=
  ∃ definition, registry.get? user = some definition ∧
    ∃ ref ∈ definition.references, ref.target = used

/-- No unit refers to itself, directly or through others. -/
def Acyclic (registry : Registry) : Prop :=
  ∀ key, ¬TransGen registry.Refers key key

/-- The templates agree on the unit and on all units that it refers to, directly or through others. -/
def Agree (registry other : Registry) (user : UnitKey) : Prop :=
  ∀ used, ReflTransGen registry.Refers used user → registry.get? used = other.get? used

variable {registry other : Registry} {definition : Definition} {variation : Option String}

theorem mem_references_of_rule {rules : List Rule} {rule : Rule} {ref : Reference}
    (hrules : definition.rulesFor variation = .ok rules) (hrule : rule ∈ rules)
    (href : ref ∈ rule.references) : ref ∈ definition.references := by
  rw [Rule.references_eq] at href
  exact Rule.mem_referencesOfAll.mpr
    ⟨rule, Definition.mem_allRules_of_rulesFor hrules hrule, href⟩

theorem mem_references_of_rulesFor {rules : List Rule} {ref : Reference}
    (hrules : definition.rulesFor variation = .ok rules) (href : ref ∈ Rule.referencesOfAll rules) :
    ref ∈ definition.references := by
  obtain ⟨rule, hrule, href⟩ := Rule.mem_referencesOfAll.mp href
  exact mem_references_of_rule hrules hrule (rule.references_eq ▸ href)

theorem Agree.target {user : UnitKey} (h : registry.Agree other user)
    (hdefinition : registry.get? user = some definition) {ref : Reference}
    (href : ref ∈ definition.references) : registry.Agree other ref.target :=
  fun used hused => h used (hused.tail ⟨definition, hdefinition, ref, href, rfl⟩)

/-- The pools that a phrase meets belong to units that it refers to. -/
theorem Meets.targets {route : Route} {phrase : Phrase} {pool : PoolKey}
    (h : registry.Meets route phrase pool) : phrase.Targets pool.unit := by
  induction h with
  | choice _ _ ih =>
    obtain ⟨ref, href, htarget⟩ := ih
    exact ⟨ref, by rwa [Content.references], htarget⟩
  | @reference ref target htarget _ =>
    exact ⟨ref, by simp [Content.references], (key_of_get? htarget).symm⟩
  | contents _ _ ih =>
    obtain ⟨ref, href, htarget⟩ := ih
    exact ⟨ref, Content.mem_referencesOfAll.mpr ⟨_, List.mem_append_cons_self, href⟩, htarget⟩
  | branches hbranch _ ih =>
    obtain ⟨ref, href, htarget⟩ := ih
    exact ⟨ref, Rule.mem_referencesOfAll.mpr ⟨_, hbranch, href⟩, htarget⟩
  | rules hrule _ ih =>
    obtain ⟨ref, href, htarget⟩ := ih
    exact ⟨ref, Rule.mem_referencesOfAll.mpr ⟨_, hrule, href⟩, htarget⟩
  | pool _ => exact rfl

theorem Uses.refers {route : Route} {used user : PoolKey} (h : registry.Uses route used user) :
    registry.Refers used.unit user.unit := by
  obtain ⟨definition, rules, hdefinition, hrules, rule, hrule, hmeets⟩ := h
  obtain ⟨ref, href, htarget⟩ := hmeets.targets
  have hmem : ref ∈ Rule.referencesOfAll rules := Rule.mem_referencesOfAll.mpr ⟨rule, hrule, href⟩
  exact ⟨definition, hdefinition, ref, mem_references_of_rulesFor hrules hmem, htarget⟩

/-- Where each unit ranks above those that it refers to, there is no cycle. -/
theorem acyclic_of_rank (rank : UnitKey → Nat)
    (h : ∀ definition ∈ registry.units, ∀ ref ∈ definition.references,
      rank ref.target < rank definition.key) : registry.Acyclic := by
  have hless {used user : UnitKey} (hrefers : registry.Refers used user) : rank used < rank user := by
    obtain ⟨definition, hdefinition, ref, href, rfl⟩ := hrefers
    exact key_of_get? hdefinition ▸ h definition (mem_units_of_get? hdefinition) ref href
  intro key hcycle
  have hbelow : ∀ user, TransGen registry.Refers key user → rank key < rank user := by
    intro user hchain
    induction hchain with
    | single hrefers => exact hless hrefers
    | tail _ hrefers ih => exact Nat.lt_trans ih (hless hrefers)
  exact Nat.lt_irrefl _ (hbelow key hcycle)

theorem Acyclic.loopsCounted (h : registry.Acyclic) : registry.LoopsCounted := by
  intro pool hloop
  exact (h pool.unit (hloop.lift PoolKey.unit fun _ _ => Uses.refers)).elim

/-! ### Counting -/

theorem countReference_of_none {ref : Reference} (h : registry.get? ref.target = none)
    (visiting : List PoolKey) : registry.countReference visiting ref =
      throw (.template (.undefinedUnit ref.target)) := by
  rw [countReference]
  split
  · rfl
  · next hsome => simp [h] at hsome

theorem countReference_of_some {ref : Reference} {target : Definition}
    (h : registry.get? ref.target = some target) (visiting : List PoolKey) :
    registry.countReference visiting ref =
      if ref.modifiers.canInclude then
        target.countPool ref.variation visiting fun rules _ _ =>
          Rule.countAll (registry.countReference (⟨target.key, ref.variation⟩ :: visiting)) rules
      else pure 0 := by
  rw [countReference]
  split
  · next hnone => simp [h] at hnone
  · next found hfound =>
    obtain rfl := Option.some.inj (h.symm.trans hfound)
    rfl

/-- Counting a reference looks only at the units behind it. -/
theorem countReference_congr (visiting : List PoolKey) (ref : Reference)
    (hagree : registry.Agree other ref.target) :
    registry.countReference visiting ref = other.countReference visiting ref := by
  -- Each pool that is entered leaves fewer pools that can still be entered.
  induction hroom : registry.freshPools visiting using Nat.strongRecOn
    generalizing visiting ref with
  | ind room ih =>
    subst hroom
    have hsame : registry.get? ref.target = other.get? ref.target := hagree _ .refl
    cases htarget : registry.get? ref.target with
    | none =>
      rw [countReference_of_none htarget, countReference_of_none (hsame ▸ htarget)]
    | some target =>
      rw [countReference_of_some htarget, countReference_of_some (hsame ▸ htarget)]
      congr 2
      funext rules hrules hfresh
      have hless := registry.freshPools_cons_lt htarget hrules hfresh
      exact Rule.countAll_congr rules fun inner hinner => ih _ hless _ inner
        (hagree.target htarget (mem_references_of_rulesFor hrules hinner)) rfl

theorem countUnit_congr (hdefinition : registry.get? definition.key = some definition)
    (hagree : registry.Agree other definition.key) (variation : Option String) :
    registry.countUnit definition variation = other.countUnit definition variation := by
  unfold countUnit
  congr 1
  funext rules hrules hfresh
  exact Rule.countAll_congr rules fun ref href => countReference_congr _ ref
    (hagree.target hdefinition (mem_references_of_rulesFor hrules href))

/-! ### Expanding -/

theorem foldlM_congr_mem {m : Type → Type} [Monad m] {α β : Type} {first second : β → α → m β}
    (items : List α) (start : β) (h : ∀ b, ∀ item ∈ items, first b item = second b item) :
    items.foldlM first start = items.foldlM second start := by
  induction items generalizing start with
  | nil => rfl
  | cons item rest ih =>
    rw [List.foldlM_cons, List.foldlM_cons, h start item List.mem_cons_self]
    congr 1
    funext b
    exact ih b fun b' other hother => h b' other (List.mem_cons_of_mem _ hother)

theorem expandRule_congr {limit : Nat} {argument : Option String}
    {first second : Rule → ExpandM (List Expansion)} {rule : Rule} (h : first rule = second rule)
    (found : Array Expansion) : definition.expandRule limit argument first found rule =
      definition.expandRule limit argument second found rule := by
  unfold Definition.expandRule
  rw [h]

theorem expandPool_congr {limit : Nat} {argument : Option String} {visiting : List PoolKey}
    {first second : (rules : List Rule) → definition.rulesFor variation = .ok rules →
      ⟨definition.key, variation⟩ ∉ visiting → Rule → ExpandM (List Expansion)}
    (h : ∀ rules hrules hfresh, ∀ rule ∈ rules,
      first rules hrules hfresh rule = second rules hrules hfresh rule) :
    definition.expandPool limit variation argument visiting first =
      definition.expandPool limit variation argument visiting second := by
  unfold Definition.expandPool
  dsimp only
  congr 1
  funext state
  split
  · rfl
  by_cases hfresh : (⟨definition.key, variation⟩ : PoolKey) ∉ visiting
  · rw [dif_pos hfresh, dif_pos hfresh]
    split
    · rfl
    next rules hrules =>
    congr 1
    exact foldlM_congr_mem rules #[] fun found rule hrule =>
      expandRule_congr (h rules hrules hfresh rule hrule) found
  · rw [dif_neg hfresh, dif_neg hfresh]

/-- Expanding a reference looks only at the units behind it. -/
theorem expandReference_congr (limit : Nat) (visiting : List PoolKey) (ref : Reference)
    (hagree : registry.Agree other ref.target) :
    registry.expandReference limit visiting ref = other.expandReference limit visiting ref := by
  -- Each pool that is entered leaves fewer pools that can still be entered.
  induction hroom : registry.freshPools visiting using Nat.strongRecOn
    generalizing visiting ref with
  | ind room ih =>
    subst hroom
    have hsame : registry.get? ref.target = other.get? ref.target := hagree _ .refl
    cases htarget : registry.get? ref.target with
    | none =>
      rw [expandReference_of_none htarget, expandReference_of_none (hsame ▸ htarget)]
    | some target =>
      rw [expandReference_of_some htarget, expandReference_of_some (hsame ▸ htarget)]
      congr 2
      refine expandPool_congr fun rules hrules hfresh rule hrule => ?_
      have hless := registry.freshPools_cons_lt htarget hrules hfresh
      refine Rule.expand_congr rule fun inner hinner => ih _ hless _ inner ?_ rfl
      exact hagree.target htarget (mem_references_of_rule hrules hrule hinner)

theorem examplesOf_congr (hdefinition : registry.get? definition.key = some definition)
    (hagree : registry.Agree other definition.key) (limit : Nat)
    (variation argument : Option String) :
    registry.examplesOf limit definition variation argument =
      other.examplesOf limit definition variation argument := by
  have hunit : registry.expandUnit limit definition variation argument =
      other.expandUnit limit definition variation argument := by
    unfold expandUnit
    refine expandPool_congr fun rules hrules _ rule hrule => ?_
    refine Rule.expand_congr rule fun ref href => expandReference_congr limit _ ref ?_
    exact hagree.target hdefinition (mem_references_of_rule hrules hrule href)
  unfold examplesOf
  rw [hunit]

/-! ### Drawing -/

/-- Drawing a unit looks only at the unit and those behind it. -/
theorem drawUnit_congr {Source : Type} [RandomSource Source] (maxDepth depth : Nat)
    (definition : Definition) (variation argument : Option String)
    (hdefinition : registry.get? definition.key = some definition)
    (hagree : registry.Agree other definition.key) :
    (registry.drawUnit maxDepth depth definition variation argument : SampleM Source Example) =
      other.drawUnit maxDepth depth definition variation argument := by
  -- The room below the limit on depth shrinks with each unit that is entered.
  induction hroom : maxDepth - depth generalizing depth definition variation argument with
  | zero =>
    rw [drawUnit, drawUnit, dif_neg (by omega), dif_neg (by omega)]
  | succ room ih =>
    have hreference (ref : Reference) (href : ref ∈ definition.references) :
        (registry.drawReference (registry.drawUnit maxDepth (depth + 1)) ref :
          SampleM Source Example) = other.drawReference (other.drawUnit maxDepth (depth + 1)) ref := by
      have hagree' := hagree.target hdefinition href
      have hsame : registry.get? ref.target = other.get? ref.target := hagree' _ .refl
      unfold drawReference
      rw [← hsame]
      cases htarget : registry.get? ref.target with
      | none => rfl
      | some target =>
        dsimp only
        rw [ih (depth + 1) target ref.variation ref.modifiers.argumentValue (get?_key htarget)
          (key_of_get? htarget ▸ hagree') (by omega)]
    rw [drawUnit, drawUnit, dif_pos (by omega), dif_pos (by omega)]
    cases hrules : definition.rulesFor variation with
    | error error => rfl
    | ok rules =>
      dsimp only
      congr 1
      funext place
      split
      · rfl
      next rule hrule =>
      rw [Rule.draw_congr rule fun ref href =>
        hreference ref (mem_references_of_rule hrules (List.mem_of_getElem? hrule) href)]

/-! ### Intents -/

variable {options : Options}

theorem batchOf_congr (hdefinition : registry.get? definition.key = some definition)
    (hagree : registry.Agree other definition.key) (requested : Option Nat) (seed : UInt64)
    (possibilities : Possibilities) :
    registry.batchOf options definition requested seed possibilities =
      other.batchOf options definition requested seed possibilities := by
  have hdraw : registry.drawAttempt options.maxDepth.toNat definition seed =
      other.drawAttempt options.maxDepth.toNat definition seed := by
    funext attempt
    unfold drawAttempt drawOnce
    rw [drawUnit_congr _ _ _ _ _ hdefinition hagree]
  have hunique (operation : Operation) :
      registry.uniqueExamples options definition possibilities operation =
        other.uniqueExamples options definition possibilities operation := by
    unfold uniqueExamples
    dsimp only
    rw [examplesOf_congr hdefinition hagree]
  unfold batchOf sampleBatch subsampleBatch exhaustiveBatch
  rw [hdraw, hunique, hunique]

/-- Templates without cycles that agree on an intent and all that it refers to make the same of it:
the same examples, synonyms, report and warnings, or the same error, whatever other intents they have
and whatever was counted before. -/
theorem generateIntent_eq_of_agree {memo : CountMemo} {otherMemo : CountMemo}
    (hcheck : registry.check = .ok ()) (hother : other.check = .ok ())
    (hacyclic : registry.Acyclic) (hotherAcyclic : other.Acyclic)
    (hdefinition : registry.get? definition.key = some definition)
    (hagree : registry.Agree other definition.key)
    (hmemo : registry.Counted memo) (hotherMemo : other.Counted otherMemo) :
    ((registry.generateIntent options definition).run memo).1 =
      ((other.generateIntent options definition).run otherMemo).1 := by
  have hotherDefinition : other.get? definition.key = some definition :=
    (hagree _ .refl).symm.trans hdefinition
  have hcount : ((registry.countUnit definition none).run memo).1 =
      ((other.countUnit definition none).run otherMemo).1 :=
    calc ((registry.countUnit definition none).run memo).1
      _ = ((registry.countUnit definition none).run ∅).1 :=
        hmemo.countUnit_eq .start hcheck hacyclic.loopsCounted hdefinition none
      _ = ((other.countUnit definition none).run ∅).1 := by
        rw [countUnit_congr hdefinition hagree]
      _ = ((other.countUnit definition none).run otherMemo).1 :=
        Counted.countUnit_eq .start hotherMemo hother hotherAcyclic.loopsCounted hotherDefinition none
  have houtcome : registry.outcomeOf options definition = other.outcomeOf options definition := by
    funext possibilities
    unfold outcomeOf
    rw [batchOf_congr hdefinition hagree]
  rw [run_generateIntent, run_generateIntent, hcount, houtcome]

end Registry

/-! One intent in two templates, one of which has another intent with a unit of its own. -/

namespace Neighbours

def plea : Definition := { key := ⟨.shared, "plea"⟩, rules := [{ contents := [.word "please "] }] }

def person : Definition := { key := ⟨.slot, "person"⟩, rules := [{ contents := [.word "Ada"] }] }

def ask : Definition where
  key := ⟨.intent, "ask"⟩
  rules := [{ contents := [.reference { target := plea.key }, .word "help"] }]

def ring : Definition where
  key := ⟨.intent, "ring"⟩
  rules := [{ contents := [.reference { target := plea.key }, .word "ring ",
    .reference { target := person.key }] }]

def alone : Registry := (Registry.ofUnits [plea, ask]).toOption.getD .empty

def together : Registry := (Registry.ofUnits [plea, person, ring, ask]).toOption.getD .empty

/-- The intents rank above the units that they refer to. -/
theorem acyclic_alone : alone.Acyclic :=
  Registry.acyclic_of_rank (fun key => key.kind.rank) (by decide +kernel)

theorem acyclic_together : together.Acyclic :=
  Registry.acyclic_of_rank (fun key => key.kind.rank) (by decide +kernel)

theorem agree_ask : alone.Agree together ask.key := by
  have hask : alone.get? ask.key = some ask := by rfl
  have hplea : alone.get? plea.key = some plea := by rfl
  intro used hused
  obtain rfl | rfl : used = ask.key ∨ used = plea.key := by
    induction hused using ReflTransGen.head_induction_on with
    | refl => exact .inl rfl
    | head hrefers _ ih =>
      obtain ⟨definition, hdefinition, ref, href, rfl⟩ := hrefers
      rcases ih with rfl | rfl
      · obtain rfl := Option.some.inj (hask.symm.trans hdefinition)
        obtain rfl := List.mem_singleton.mp href
        exact .inr rfl
      · obtain rfl := Option.some.inj (hplea.symm.trans hdefinition)
        exact (List.not_mem_nil href).elim
  · rfl
  · rfl

theorem generateIntent_ask : ((alone.generateIntent {} ask).run ∅).1 =
    ((together.generateIntent {} ask).run (together.countsAfter {} [ring])).1 := by
  have hring : together.Counted (together.countsAfter {} [ring]) :=
    Registry.counted_countsAfter fun definition hmem => List.mem_singleton.mp hmem ▸ (by rfl)
  exact Registry.generateIntent_eq_of_agree (by rfl) (by rfl) acyclic_alone
    acyclic_together (by rfl) agree_ask .start hring

end Neighbours

end Phrasebook
