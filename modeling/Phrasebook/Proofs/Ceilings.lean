import Phrasebook.Proofs.Alike
import Phrasebook.Proofs.Capacity
import Phrasebook.Proofs.Sizes

/-! Expanding with the sizes of lists kept in the state: of each list that a pool, a rule or a
content comes to, and of each list that a loop fills, whenever something was added and before the
limit is looked at. Apart from the sizes, it is expanding as it is; and whatever the template, and
whether expanding succeeds or fails, no size is much beyond the limit. -/

namespace Phrasebook

open Std

/-- The lists whose sizes are kept. -/
inductive Measured where
  /-- The expansions of a pool, expanded or known. -/
  | pool
  /-- The alternatives of the contents of a rule. -/
  | rule
  | content
  /-- A list that is being filled: by the expansions of the rules of a pool, by the pairs of two
  lists or by the alternatives of branches. -/
  | loop
deriving DecidableEq

/-- The size that a list may have under a limit. -/
def Measured.bound (limit : Nat) : Measured → Nat
  | pool | rule => limit
  | content => 2 * limit + 1
  | loop => 2 * limit

/-- A state with the sizes so far, the last one first. -/
structure Gauge where
  state : ExpandState := {}
  sizes : List (Measured × Nat) := []

/-- Expanding with the sizes kept, also when it fails. -/
abbrev GaugeM := ExceptT GenerationError (StateM Gauge)

namespace GaugeM

variable {α : Type}

/-- Does what has no list to measure. -/
def aside (x : ExpandM α) : GaugeM α :=
  ExceptT.mk fun gauge => ((x.run gauge.state).1, { gauge with state := (x.run gauge.state).2 })

def measure (what : Measured) (size : Nat) : GaugeM Unit :=
  modify fun gauge => { gauge with sizes := (what, size) :: gauge.sizes }

/-- Measures the list that is come to. -/
def measuring (what : Measured) (x : GaugeM (List Expansion)) : GaugeM (List Expansion) := do
  let all ← x
  measure what all.length
  return all

end GaugeM

/-! ### Expanding with the sizes kept

Each function does what its namesake does, and measures a list when it is come to, or when something
was added to it. -/

namespace Expansion

def pairWithGauged (limit : Nat) (excess : GenerationError) (first : Expansion)
    (found : Array Expansion) (second : Expansion) : GaugeM (Array Expansion) :=
  match first.append? second with
  | none => return found
  | some pair => do
    let found := found.push pair
    GaugeM.measure .loop found.size
    if limit < found.size then throw excess else return found

def combineGauged (limit : Nat) (owner : UnitKey) (left right : List Expansion) :
    GaugeM (List Expansion) := do
  let excess := .capacityExceeded owner .generateAll limit
    (.ofNat left.length * .ofNat right.length)
  let pairs ← left.foldlM
    (fun found first => right.foldlM (first.pairWithGauged limit excess) found) #[]
  return distinct pairs.toList

end Expansion

section Contents

variable (expandReference : Reference → GaugeM (List Expansion)) (limit : Nat) (owner : UnitKey)

mutual

def Content.expandGauged : Content → GaugeM (List Expansion)
  | .word text => GaugeM.measuring .content (return [.ofText text])
  | .wordGroup text modifiers =>
    GaugeM.measuring .content (GaugeM.aside (modifiers.expand [.ofText text]))
  | .choice branches modifiers => GaugeM.measuring .content do
    if branches.isEmpty then
      throw (.template (.emptyChoice owner))
    let base ← if modifiers.canInclude then Rule.expandBranchesGauged [] branches else pure []
    GaugeM.aside (modifiers.expand (distinct base))
  | .reference ref => GaugeM.measuring .content (expandReference ref)

def Content.expandAllGauged (before : List Expansion) : List Content → GaugeM (List Expansion)
  | [] => return before
  | content :: rest => do
    let alternatives ← content.expandGauged
    let extended ← Expansion.combineGauged limit owner before alternatives
    if extended.isEmpty then return [] else Content.expandAllGauged extended rest

def Rule.expandGauged : Rule → GaugeM (List Expansion)
  | { contents, .. } => GaugeM.measuring .rule (Content.expandAllGauged [{}] contents)

def Rule.expandBranchesGauged (before : List Expansion) : List Rule → GaugeM (List Expansion)
  | [] => return before
  | branch :: rest => do
    let all := before ++ (← branch.expandGauged)
    GaugeM.measure .loop all.length
    GaugeM.aside (ExpandM.checkLimit limit owner all.length)
    Rule.expandBranchesGauged all rest

end

end Contents

namespace Definition

def finishVariantGauged (limit : Nat) (definition : Definition) (rule : Rule)
    (argument : Option String) (decisions : Decisions) (found : Array Expansion)
    (variant : Example) : GaugeM (Array Expansion) := do
  if definition.varyCase then
    GaugeM.aside (ExpandM.record (·.recordMentions variant))
  match definition.finish rule argument variant with
  | .error error => throw (.template error)
  | .ok finished =>
    GaugeM.aside (ExpandM.record (definition.recordSlot · finished))
    let found := found.push { result := finished, decisions }
    GaugeM.measure .loop found.size
    GaugeM.aside (ExpandM.checkLimit limit definition.key found.size)
    return found

def expandRuleGauged (limit : Nat) (definition : Definition) (argument : Option String)
    (expand : Rule → GaugeM (List Expansion)) (found : Array Expansion) (rule : Rule) :
    GaugeM (Array Expansion) := do
  (← expand rule).foldlM (fun found expansion =>
    (expansion.result.caseVariants definition.varyCase).foldlM
      (definition.finishVariantGauged limit rule argument expansion.decisions) found) found

def expandPoolGauged (limit : Nat) (definition : Definition) (variation argument : Option String)
    (visiting : List PoolKey)
    (expand : (rules : List Rule) → definition.rulesFor variation = .ok rules →
      ⟨definition.key, variation⟩ ∉ visiting → Rule → GaugeM (List Expansion)) :
    GaugeM (List Expansion) := GaugeM.measuring .pool do
  let call : PoolCall := ⟨⟨definition.key, variation⟩, argument⟩
  match (← get).state.cache[call]? with
  | some expansions => return expansions
  | none =>
    if fresh : call.pool ∉ visiting then
      match found : definition.rulesFor variation with
      | .error error => throw (.template error)
      | .ok rules => do
        let all ← rules.foldlM
          (definition.expandRuleGauged limit argument (expand rules found fresh)) #[]
        let expansions := distinct all.toList
        GaugeM.aside
          (modify fun state => { state with cache := state.cache.insert call expansions })
        return expansions
    else
      throw (.recursiveExpansion definition.key)

end Definition

namespace Registry

def expandReferenceGauged (registry : Registry) (limit : Nat) (visiting : List PoolKey)
    (reference : Reference) : GaugeM (List Expansion) := do
  match found : registry.get? reference.target with
  | none => throw (.template (.undefinedUnit reference.target))
  | some target =>
    let base ←
      if reference.modifiers.canInclude then
        target.expandPoolGauged limit reference.variation reference.modifiers.argumentValue visiting
          fun _ hrules fresh rule =>
            have := registry.freshPools_cons_lt found hrules fresh
            rule.expandGauged
              (fun inner => registry.expandReferenceGauged limit
                (⟨target.key, reference.variation⟩ :: visiting) inner)
              limit target.key
      else
        pure []
    GaugeM.aside (reference.modifiers.expand base)
termination_by registry.freshPools visiting

def expandUnitGauged (registry : Registry) (limit : Nat) (definition : Definition)
    (variation argument : Option String) : GaugeM (List Expansion) :=
  definition.expandPoolGauged limit variation argument [] fun _ _ _ rule =>
    rule.expandGauged (registry.expandReferenceGauged limit [⟨definition.key, variation⟩]) limit
      definition.key

end Registry

/-! ### Runs that keep the sizes within the bounds -/

/-- Each alternative may come in two cases, and the content may be left out. -/
theorem Modifiers.weight_le (modifiers : Modifiers) (n : Nat) : modifiers.weight n ≤ 2 * n + 1 := by
  have hpresent : doubledIf modifiers.varyCase n ≤ 2 * n := by
    unfold doubledIf
    split <;> omega
  have habsent : (if modifiers.canExclude then 1 else 0) ≤ 1 := by split <;> omega
  unfold weight
  refine Nat.add_le_add ?_ habsent
  split
  · exact hpresent
  · exact Nat.zero_le _

/-- The lists that are kept are not beyond the limit. -/
def ExpandState.CachedWithin (limit : Nat) (state : ExpandState) : Prop :=
  ∀ (call : PoolCall) (all : List Expansion), state.cache[call]? = some all → all.length ≤ limit

/-- The lists that are kept are not beyond the limit, and no size is beyond its bound. -/
structure Gauge.Within (limit : Nat) (gauge : Gauge) : Prop where
  cached : gauge.state.CachedWithin limit
  sizes : ∀ measured ∈ gauge.sizes, measured.2 ≤ measured.1.bound limit

theorem Gauge.within_empty (limit : Nat) : Gauge.Within limit {} := by
  refine ⟨fun call all hcached => ?_, nofun⟩
  simp at hcached

/-- The sizes are kept beside the second state, and are within the bounds. -/
structure Gauge.Beside (limit : Nat) (gauge : Gauge) (state : ExpandState) : Prop where
  state_eq : gauge.state = state
  within : gauge.Within limit

/-- From every gauge within the bounds the first computation does what the second does without the
sizes, and stays within the bounds, whether it succeeds or fails; a result is good. -/
abbrev Measures {α : Type} (limit : Nat) (x : GaugeM α) (y : ExpandM α) (good : α → Prop) : Prop :=
  Alike True (Gauge.Beside limit) good x y

namespace Measures

variable {α β : Type} {limit : Nat} {x : GaugeM α} {y : ExpandM α} {good : α → Prop}

/-- What is done aside keeps the sizes; it has to keep the lists within the limit. -/
theorem aside
    (h : ∀ state : ExpandState, state.CachedWithin limit →
      Ends y state (fun a state' => good a ∧ state'.CachedWithin limit)
        fun _ state' => state'.CachedWithin limit) :
    Measures limit (GaugeM.aside y) y good := by
  refine alike_true_iff.mpr ?_
  rintro start _ ⟨rfl, hstart⟩
  have hends := h start.state hstart.cached
  have hcached := (hends.mono (fun _ _ h => h.2) fun _ _ h => h).state
  exact ⟨rfl, ⟨rfl, hcached, hstart.sizes⟩, fun a ha => (hends.of_run_ok (Prod.ext ha rfl)).1⟩

/-- A size within its bound may be kept anywhere. -/
theorem measure_bind {what : Measured} {size : Nat} (hsize : size ≤ what.bound limit)
    {inside : Unit → GaugeM α} (h : Measures limit (inside ()) y good) :
    Measures limit (GaugeM.measure what size >>= inside) y good := by
  rintro start state ⟨hstate, hstart⟩
  exact h { start with sizes := (what, size) :: start.sizes } state
    ⟨hstate, hstart.cached, List.forall_mem_cons.mpr ⟨hsize, hstart.sizes⟩⟩

/-- A list whose size is within its bound may be measured. -/
theorem measuring (what : Measured) {x : GaugeM (List Expansion)} {y : ExpandM (List Expansion)}
    (h : Measures limit x y fun all => all.length ≤ what.bound limit) :
    Measures limit (GaugeM.measuring what x) y fun all => all.length ≤ what.bound limit := by
  rw [← bind_pure y]
  exact h.bind fun all hall => measure_bind hall (.pure hall)

theorem liftM_bind (first : Except GenerationError α) (f : α → Except GenerationError β) :
    (liftM (first >>= f) : ExpandM β) = liftM first >>= fun a => liftM (f a) := by
  cases first <;> rfl

theorem liftM_foldlM {γ : Type} (f : β → γ → Except GenerationError β) (items : List γ) (b : β) :
    (liftM (items.foldlM f b) : ExpandM β) = items.foldlM (fun b item => liftM (f b item)) b := by
  induction items generalizing b with
  | nil => rfl
  | cons item rest ih =>
    rw [List.foldlM_cons, List.foldlM_cons, liftM_bind]
    exact bind_congr fun b' => ih b'

/-! ### The steps of an expansion -/

theorem modifiers {modifiers : Modifiers} {base : List Expansion} (hbase : base.length ≤ limit) :
    Measures limit (GaugeM.aside (modifiers.expand base)) (modifiers.expand base)
      fun all => all.length ≤ 2 * limit + 1 := by
  refine aside fun state hstate => Modifiers.expand_ends fun state' hgrows _ => ⟨?_, ?_⟩
  · have hweight := modifiers.weight_le base.length
    exact Nat.le_trans (modifiers.length_alternatives_le base) (by omega)
  · unfold ExpandState.CachedWithin
    rwa [hgrows.cache]

theorem record (change : Synonyms → Synonyms) :
    Measures limit (GaugeM.aside (ExpandM.record change)) (ExpandM.record change) fun _ => True :=
  aside fun _ hstate => ⟨trivial, hstate⟩

theorem checkLimit (owner : UnitKey) (size : Nat) :
    Measures limit (GaugeM.aside (ExpandM.checkLimit limit owner size))
      (ExpandM.checkLimit limit owner size) fun _ => size ≤ limit :=
  aside fun _ hstate => ExpandM.checkLimit_ends (fun hroom => ⟨hroom, hstate⟩) fun _ => hstate

/-- A list within the limit may be kept for later. -/
theorem keep (call : PoolCall) {all : List Expansion} (hall : all.length ≤ limit) :
    Measures limit
      (GaugeM.aside (modify fun state => { state with cache := state.cache.insert call all }))
      (modify fun state => { state with cache := state.cache.insert call all })
      fun _ => True := by
  refine aside fun state hstate => ⟨trivial, fun other found hfound => ?_⟩
  dsimp only at hfound
  rw [ExtTreeMap.getElem?_insert] at hfound
  split at hfound
  · exact Option.some.inj hfound ▸ hall
  · exact hstate other found hfound

section Loops

variable (hlimit : 1 ≤ limit)
include hlimit

theorem pairWith (excess : GenerationError) (first : Expansion) (found : Array Expansion)
    (second : Expansion) (hfound : found.size ≤ limit) :
    Measures limit (first.pairWithGauged limit excess found second)
      (liftM (first.pairWith limit excess found second)) fun found => found.size ≤ limit := by
  unfold Expansion.pairWithGauged Expansion.pairWith
  cases first.append? second with
  | none => exact .pure hfound
  | some pair =>
    have hsize : (found.push pair).size = found.size + 1 := Array.size_push _
    refine measure_bind (by rw [hsize, Measured.bound]; omega) ?_
    dsimp only
    rw [hsize]
    by_cases hfull : limit < found.size + 1
    · rw [if_pos hfull, if_pos hfull]
      exact .throw excess
    · rw [if_neg hfull, if_neg hfull]
      exact .pure (by omega)

theorem combine (owner : UnitKey) (left right : List Expansion) :
    Measures limit (Expansion.combineGauged limit owner left right)
      (liftM (Expansion.combine limit owner left right)) fun all => all.length ≤ limit := by
  unfold Expansion.combineGauged Expansion.combine
  dsimp only
  rw [liftM_bind, liftM_foldlM]
  simp only [liftM_foldlM]
  have hnone : (#[] : Array Expansion).size ≤ limit := Nat.zero_le limit
  refine (Alike.foldlM left (fun found first _ hfound => .foldlM right
    (fun found second _ => pairWith hlimit _ first found second) hfound) hnone).bind
      fun pairs hpairs => .pure ?_
  exact Nat.le_trans (length_distinct_le _) (by rwa [Array.length_toList])

theorem finishVariant (definition : Definition) (rule : Rule) (argument : Option String)
    (decisions : Decisions) (found : Array Expansion) (variant : Example)
    (hfound : found.size ≤ limit) :
    Measures limit (definition.finishVariantGauged limit rule argument decisions found variant)
      (definition.finishVariant limit rule argument decisions found variant)
      fun found => found.size ≤ limit := by
  -- What follows the record of the mentions is the same whether there was one or not.
  have hfinished (finished : Example) : Measures limit
      (do
        GaugeM.aside (ExpandM.record (definition.recordSlot · finished))
        let found := found.push { result := finished, decisions }
        GaugeM.measure .loop found.size
        GaugeM.aside (ExpandM.checkLimit limit definition.key found.size)
        return found)
      (do
        ExpandM.record (definition.recordSlot · finished)
        let found := found.push { result := finished, decisions }
        ExpandM.checkLimit limit definition.key found.size
        return found) fun found => found.size ≤ limit := by
    refine (record _).bind fun _ _ => measure_bind ?_ ((checkLimit _ _).bind fun _ h => .pure h)
    rw [Array.size_push, Measured.bound]
    omega
  unfold Definition.finishVariantGauged Definition.finishVariant
  dsimp only
  split
  · refine (record _).bind fun _ _ => ?_
    cases definition.finish rule argument variant with
    | error error => exact .throw _
    | ok finished => exact hfinished finished
  · cases definition.finish rule argument variant with
    | error error => exact .throw _
    | ok finished => exact hfinished finished

theorem expandRule (definition : Definition) (argument : Option String)
    {first : Rule → GaugeM (List Expansion)} {second : Rule → ExpandM (List Expansion)}
    {good : List Expansion → Prop} {rule : Rule}
    (h : Measures limit (first rule) (second rule) good)
    {found : Array Expansion} (hfound : found.size ≤ limit) :
    Measures limit (definition.expandRuleGauged limit argument first found rule)
      (definition.expandRule limit argument second found rule) fun found => found.size ≤ limit := by
  refine h.bind fun expansions _ => .foldlM expansions (fun found expansion _ hfound => ?_) hfound
  exact .foldlM _
    (fun found variant _ => finishVariant hlimit definition rule argument _ found variant) hfound

end Loops

section Contents

variable {first : Reference → GaugeM (List Expansion)}
  {second : Reference → ExpandM (List Expansion)} {owner : UnitKey}

mutual

theorem expandContent (hlimit : 1 ≤ limit)
    (hreference : ∀ ref,
      Measures limit (first ref) (second ref) fun all => all.length ≤ 2 * limit + 1) :
    (content : Content) →
    Measures limit (content.expandGauged first limit owner) (content.expand second limit owner)
      fun all => all.length ≤ 2 * limit + 1
  | .word text => measuring .content (.pure (Nat.le_add_left 1 _))
  | .wordGroup text group => measuring .content (modifiers hlimit)
  | .choice branches choice => by
    rw [Content.expandGauged, Content.expand]
    refine measuring .content ?_
    by_cases hempty : branches.isEmpty
    · rw [if_pos hempty, if_pos hempty]
      exact .throw _
    rw [if_neg hempty, if_neg hempty]
    dsimp only
    have hdistinct {base : List Expansion} (hbase : base.length ≤ limit) :
        (distinct base).length ≤ limit :=
      Nat.le_trans (length_distinct_le base) hbase
    split
    · have hall := expandBranches hlimit hreference branches [] (Nat.zero_le limit)
      exact hall.bind fun base hbase => modifiers (hdistinct hbase)
    · have hnone : Measures limit (Pure.pure [] : GaugeM (List Expansion)) (Pure.pure [])
          fun base => base.length ≤ limit := .pure (Nat.zero_le limit)
      exact hnone.bind fun base hbase => modifiers (hdistinct hbase)
  | .reference ref => measuring .content (hreference ref)

theorem expandAll (hlimit : 1 ≤ limit)
    (hreference : ∀ ref,
      Measures limit (first ref) (second ref) fun all => all.length ≤ 2 * limit + 1) :
    (contents : List Content) → (before : List Expansion) →
    before.length ≤ limit →
    Measures limit (Content.expandAllGauged first limit owner before contents)
      (Content.expandAll second limit owner before contents) fun all => all.length ≤ limit
  | [], before, hbefore => .pure hbefore
  | content :: rest, before, _ => by
    rw [Content.expandAllGauged, Content.expandAll]
    refine (expandContent hlimit hreference content).bind fun alternatives _ => ?_
    refine (combine hlimit owner before alternatives).bind fun extended hextended => ?_
    split
    · exact .pure (Nat.zero_le _)
    · exact expandAll hlimit hreference rest extended hextended

theorem expandContents (hlimit : 1 ≤ limit)
    (hreference : ∀ ref,
      Measures limit (first ref) (second ref) fun all => all.length ≤ 2 * limit + 1) :
    (rule : Rule) →
    Measures limit (rule.expandGauged first limit owner) (rule.expand second limit owner)
      fun all => all.length ≤ limit
  | { contents, .. } => measuring .rule (expandAll hlimit hreference contents [{}] hlimit)

theorem expandBranches (hlimit : 1 ≤ limit)
    (hreference : ∀ ref,
      Measures limit (first ref) (second ref) fun all => all.length ≤ 2 * limit + 1) :
    (branches : List Rule) → (before : List Expansion) →
    before.length ≤ limit →
    Measures limit (Rule.expandBranchesGauged first limit owner before branches)
      (Rule.expandBranches second limit owner before branches) fun all => all.length ≤ limit
  | [], before, hbefore => .pure hbefore
  | branch :: rest, before, hbefore => by
    rw [Rule.expandBranchesGauged, Rule.expandBranches]
    refine (expandContents hlimit hreference branch).bind fun expanded hexpanded => ?_
    have hboth : (before ++ expanded).length ≤ 2 * limit := by
      rw [List.length_append]
      omega
    refine measure_bind hboth ((checkLimit owner _).bind fun _ hroom => ?_)
    exact expandBranches hlimit hreference rest (before ++ expanded) hroom

end

end Contents

theorem expandPool {definition : Definition} {variation argument : Option String}
    {visiting : List PoolKey}
    {first : (rules : List Rule) → definition.rulesFor variation = .ok rules →
      ⟨definition.key, variation⟩ ∉ visiting → Rule → GaugeM (List Expansion)}
    {second : (rules : List Rule) → definition.rulesFor variation = .ok rules →
      ⟨definition.key, variation⟩ ∉ visiting → Rule → ExpandM (List Expansion)}
    (hlimit : 1 ≤ limit)
    (h : ∀ rules hrules hfresh rule, Measures limit (first rules hrules hfresh rule)
      (second rules hrules hfresh rule) fun all => all.length ≤ limit) :
    Measures limit (definition.expandPoolGauged limit variation argument visiting first)
      (definition.expandPool limit variation argument visiting second)
      fun all => all.length ≤ limit := by
  refine measuring .pool (.get_bind ?_)
  rintro gauge _ ⟨rfl, hgauge⟩
  dsimp only
  cases hcached : gauge.state.cache[(⟨⟨definition.key, variation⟩, argument⟩ : PoolCall)]? with
  | some expansions => exact .pure (hgauge.cached _ expansions hcached)
  | none =>
    dsimp only
    by_cases hfresh : ⟨definition.key, variation⟩ ∉ visiting
    · rw [dif_pos hfresh, dif_pos hfresh]
      -- What the rules are is looked up on both sides, with a proof that the pools rely on.
      revert first second
      generalize definition.rulesFor variation = found
      intro first second h
      cases found with
      | error error => exact .throw _
      | ok rules =>
        have hnone : (#[] : Array Expansion).size ≤ limit := Nat.zero_le limit
        refine (Alike.foldlM rules (fun found rule _ hfound =>
          expandRule hlimit definition argument (h rules rfl hfresh rule) hfound) hnone).bind
          fun all hall => ?_
        have hdistinct : (distinct all.toList).length ≤ limit :=
          Nat.le_trans (length_distinct_le _) (by rwa [Array.length_toList])
        exact (keep _ hdistinct).bind fun _ _ => .pure hdistinct
    · rw [dif_neg hfresh, dif_neg hfresh]
      exact .throw _

end Measures

namespace Registry

theorem expandReferenceGauged_of_none {registry : Registry} {ref : Reference}
    (h : registry.get? ref.target = none) (limit : Nat) (visiting : List PoolKey) :
    registry.expandReferenceGauged limit visiting ref =
      throw (.template (.undefinedUnit ref.target)) := by
  rw [expandReferenceGauged]
  split
  · rfl
  · next hsome => simp [h] at hsome

theorem expandReferenceGauged_of_some {registry : Registry} {ref : Reference} {target : Definition}
    (h : registry.get? ref.target = some target) (limit : Nat) (visiting : List PoolKey) :
    registry.expandReferenceGauged limit visiting ref =
      (if ref.modifiers.canInclude then
        target.expandPoolGauged limit ref.variation ref.modifiers.argumentValue visiting
          fun _ _ _ rule => rule.expandGauged
            (registry.expandReferenceGauged limit (⟨target.key, ref.variation⟩ :: visiting)) limit
            target.key
      else pure []) >>= fun base => GaugeM.aside (ref.modifiers.expand base) := by
  rw [expandReferenceGauged]
  split
  · next hnone => simp [h] at hnone
  · next found hfound =>
    obtain rfl := Option.some.inj (h.symm.trans hfound)
    split <;> rfl

theorem measures_expandReference (registry : Registry) {limit : Nat} (hlimit : 1 ≤ limit)
    (visiting : List PoolKey) (ref : Reference) :
    Measures limit (registry.expandReferenceGauged limit visiting ref)
      (registry.expandReference limit visiting ref) fun all => all.length ≤ 2 * limit + 1 := by
  -- Each pool that is entered leaves fewer pools that can still be entered.
  induction hroom : registry.freshPools visiting using Nat.strongRecOn
    generalizing visiting ref with
  | ind room ih =>
    subst hroom
    cases htarget : registry.get? ref.target with
    | none =>
      rw [expandReferenceGauged_of_none htarget, expandReference_of_none htarget]
      exact .throw _
    | some target =>
      rw [expandReferenceGauged_of_some htarget, expandReference_of_some htarget]
      refine Alike.bind ?_ fun base hbase => Measures.modifiers hbase
      split
      · refine Measures.expandPool hlimit fun rules hrules hfresh rule => ?_
        have hless := registry.freshPools_cons_lt htarget hrules hfresh
        exact Measures.expandContents hlimit (fun inner => ih _ hless _ inner rfl) rule
      · exact .pure (Nat.zero_le limit)

theorem measures_expandUnit (registry : Registry) {limit : Nat} (hlimit : 1 ≤ limit)
    (definition : Definition) (variation argument : Option String) :
    Measures limit (registry.expandUnitGauged limit definition variation argument)
      (registry.expandUnit limit definition variation argument) fun all => all.length ≤ limit :=
  .expandPool hlimit fun _ _ _ rule =>
    .expandContents hlimit (registry.measures_expandReference hlimit _) rule

end Registry

/-! ### Queries one after the other -/

/-- A query for the expansions of a pool of a unit. -/
structure PoolQuery where
  definition : Definition
  variation : Option String := none
  argument : Option String := none

namespace Registry

/-- Answers queries with one cache, whether those before failed or not. -/
def answers (registry : Registry) (limit : Nat) :
    List PoolQuery → StateM ExpandState (List (Except GenerationError (List Expansion)))
  | [] => pure []
  | query :: rest => do
    let answer ← (registry.expandUnit limit query.definition query.variation query.argument).run
    let behind ← registry.answers limit rest
    pure (answer :: behind)

def answersGauged (registry : Registry) (limit : Nat) :
    List PoolQuery → StateM Gauge (List (Except GenerationError (List Expansion)))
  | [] => pure []
  | query :: rest => do
    let answer ←
      (registry.expandUnitGauged limit query.definition query.variation query.argument).run
    let behind ← registry.answersGauged limit rest
    pure (answer :: behind)

theorem run_answers_cons (registry : Registry) (limit : Nat) (query : PoolQuery)
    (rest : List PoolQuery) (state : ExpandState) :
    (registry.answers limit (query :: rest)).run state =
      let first := (registry.expandUnit limit query.definition query.variation query.argument).run
        state
      let behind := (registry.answers limit rest).run first.2
      (first.1 :: behind.1, behind.2) := rfl

theorem run_answersGauged_cons (registry : Registry) (limit : Nat) (query : PoolQuery)
    (rest : List PoolQuery) (gauge : Gauge) :
    (registry.answersGauged limit (query :: rest)).run gauge =
      let first := (registry.expandUnitGauged limit query.definition query.variation
        query.argument).run gauge
      let behind := (registry.answersGauged limit rest).run first.2
      (first.1 :: behind.1, behind.2) := rfl

theorem answersGauged_within (registry : Registry) {limit : Nat} (hlimit : 1 ≤ limit)
    (queries : List PoolQuery) (start : Gauge) (hstart : start.Within limit) :
    ((registry.answersGauged limit queries).run start).1 =
        ((registry.answers limit queries).run start.state).1 ∧
      ((registry.answersGauged limit queries).run start).2.state =
        ((registry.answers limit queries).run start.state).2 ∧
      ((registry.answersGauged limit queries).run start).2.Within limit ∧
      ∀ all, .ok all ∈ ((registry.answersGauged limit queries).run start).1 →
        all.length ≤ limit := by
  induction queries generalizing start with
  | nil => exact ⟨rfl, rfl, hstart, fun _ hall => (List.not_mem_nil hall).elim⟩
  | cons query rest ih =>
    have hmeasures := registry.measures_expandUnit hlimit query.definition query.variation
      query.argument
    obtain ⟨hresult, ⟨hstate, hwithin⟩, hgood⟩ :=
      alike_true_iff.mp hmeasures start start.state ⟨rfl, hstart⟩
    obtain ⟨hresults, hstates, hwithin, hbehind⟩ := ih _ hwithin
    rw [run_answersGauged_cons, run_answers_cons]
    dsimp only
    rw [← hstate]
    refine ⟨congrArg₂ List.cons hresult hresults, hstates, hwithin, fun all hall => ?_⟩
    rcases List.mem_cons.mp hall with hfirst | hrest
    · exact hgood all hfirst.symm
    · exact hbehind all hrest

/-- However many queries there were before, and whether they failed or not, expanding with the
sizes kept gives the same answers and the same cache as expanding, and keeps no size beyond its
bound: every list that a pool or the contents of a rule come to is within the limit, as are all
lists in the cache, the alternatives of a content are at most twice as many and one more, and no
loop ever holds more than twice as many. -/
theorem sizes_le_bound (registry : Registry) {limit : Nat} (hlimit : 1 ≤ limit)
    (queries : List PoolQuery) :
    ((registry.answersGauged limit queries).run {}).1 =
        ((registry.answers limit queries).run {}).1 ∧
      ((registry.answersGauged limit queries).run {}).2.state =
        ((registry.answers limit queries).run {}).2 ∧
      (∀ all, .ok all ∈ ((registry.answers limit queries).run {}).1 → all.length ≤ limit) ∧
      (∀ (call : PoolCall) (all : List Expansion),
        ((registry.answers limit queries).run {}).2.cache[call]? = some all → all.length ≤ limit) ∧
      ∀ what size, (what, size) ∈ ((registry.answersGauged limit queries).run {}).2.sizes →
        size ≤ what.bound limit := by
  obtain ⟨hanswers, hstate, hwithin, hgood⟩ :=
    registry.answersGauged_within hlimit queries {} (Gauge.within_empty limit)
  refine ⟨hanswers, hstate, hanswers ▸ hgood, ?_, fun what size => hwithin.sizes (what, size)⟩
  exact hstate ▸ hwithin.cached

end Registry

namespace Courtesy

/-- The intent with eight possibilities has at most eight expansions. -/
theorem answers_ask_le :
    ∃ all, .ok all ∈ ((phrasebook.answers 8 [{ definition := ask }]).run {}).1 ∧
      all.length ≤ 8 := by
  obtain ⟨examples, state, hrun⟩ := exists_examples_ask
  obtain ⟨all, hall⟩ : ∃ all, ((phrasebook.expandUnit 8 ask none none).run {}).1 = .ok all := by
    unfold Registry.examplesOf at hrun
    rw [run_bind] at hrun
    rcases hunit : (phrasebook.expandUnit 8 ask none none).run {} with ⟨error | all, state'⟩
    · rw [hunit] at hrun
      exact nomatch hrun
    · exact ⟨all, rfl⟩
  have hmem : .ok all ∈ ((phrasebook.answers 8 [{ definition := ask }]).run {}).1 :=
    hall ▸ List.mem_cons_self
  obtain ⟨-, -, hle, -⟩ := phrasebook.sizes_le_bound (by decide : 1 ≤ 8) [{ definition := ask }]
  exact ⟨all, hmem, hle all hmem⟩

/-- With room for one, a choice of two is too much, but both are held by the time this is told. -/
example :
    ((Content.expandGauged (fun _ => pure []) 1 ask.key
      (.choice [{ contents := [.word "yes"] }, { contents := [.word "no"] }] {})).run {}).2.sizes =
    [(.loop, 2), (.rule, 1), (.loop, 1), (.content, 1),
      (.loop, 1), (.rule, 1), (.loop, 1), (.content, 1)] := by
  cbv

end Courtesy

end Phrasebook
