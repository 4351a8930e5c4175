import Mathlib.Data.Finset.Card
import Phrasebook.Proofs.Alike
import Phrasebook.Proofs.Caching
import Phrasebook.Proofs.Isolation

/-! Counting and expanding with the pools that are entered kept in the state. A pool is put on a
trail where it is entered and taken off where it is left, behind a success and behind a failure, and
a pool on the trail is not entered again. Along a trail, counting and expanding come to what they
come to inside its pools, and leave the trail as it was; it grows by no more pools than the start
and the references of the template name, so that they end on every template. -/

namespace Phrasebook

variable {σ α β : Type}

/-- A state, with the pools that are entered and not yet left, the last one first. -/
structure Trailed (σ : Type) where
  state : σ
  trail : List PoolKey
  /-- The greatest number of pools on the trail so far. -/
  deepest : Nat

/-- A computation that may look at the trail, and that keeps its state also when it fails. -/
abbrev TrailM (σ : Type) := ExceptT GenerationError (StateM (Trailed σ))

namespace Trailed

def enter (trailed : Trailed σ) (pool : PoolKey) : Trailed σ where
  state := trailed.state
  trail := pool :: trailed.trail
  deepest := max trailed.deepest (trailed.trail.length + 1)

def leave (trailed : Trailed σ) (rest : List PoolKey → List PoolKey) : Trailed σ :=
  { trailed with trail := rest trailed.trail }

end Trailed

namespace TrailM

/-- Does what has nothing to do with the trail. -/
def aside (x : ExceptT GenerationError (StateM σ) α) : TrailM σ α :=
  ExceptT.mk fun trailed =>
    ((x.run trailed.state).1, { trailed with state := (x.run trailed.state).2 })

/-- Enters a pool, does what is to be done inside it, and leaves it, whether that succeeds or
fails. -/
def inside (pool : PoolKey) (leave : List PoolKey → List PoolKey) (x : TrailM σ α) : TrailM σ α :=
  ExceptT.mk do
    modify (·.enter pool)
    let result ← x.run
    modify (·.leave leave)
    return result

end TrailM

/-! ### Counting along a trail -/

section Counting

variable (countReference : Reference → TrailM CountMemo Possibilities)

mutual

def Content.countAlong : Content → TrailM CountMemo Possibilities
  | .word _ => pure 1
  | .wordGroup _ modifiers => pure (modifiers.weigh 1)
  | .choice branches modifiers => do return modifiers.weigh (← Rule.countAllAlong branches)
  | .reference ref => do return ref.modifiers.weigh (← countReference ref)

def Content.countAllAlong : List Content → TrailM CountMemo Possibilities
  | [] => pure 1
  | content :: rest => do
    let first ← content.countAlong
    return first * (← Content.countAllAlong rest)

def Rule.countAlong : Rule → TrailM CountMemo Possibilities
  | { contents, .. } => Content.countAllAlong contents

def Rule.countAllAlong : List Rule → TrailM CountMemo Possibilities
  | [] => pure 0
  | rule :: rest => do
    let first ← rule.countAlong
    return first + (← Rule.countAllAlong rest)

end

end Counting

/-- What counts a pool, by its unit and the variation. -/
abbrev CountsPool := Definition → Option String → TrailM CountMemo Possibilities

namespace Registry

/-- Counts the pool that a reference draws from; `countPool` counts the pools that are not left out.
-/
def countReferenceAlong (registry : Registry) (countPool : CountsPool) (ref : Reference) :
    TrailM CountMemo Possibilities :=
  match registry.get? ref.target with
  | none => throw (.template (.undefinedUnit ref.target))
  | some target =>
    if ref.modifiers.canInclude then countPool target ref.variation else pure 0

/-- Counts a pool unless its count is known or it is on the trail, from which it is removed in the
end; `countPool` counts the pools that it refers to. -/
def countEntered (registry : Registry) (countPool : CountsPool) : CountsPool :=
  fun definition variation => do
    let pool : PoolKey := ⟨definition.key, variation⟩
    let start ← get
    match start.state[pool]? with
    | some count => return count
    | none =>
      if pool ∈ start.trail then
        return .unbounded
      else
        let count ← TrailM.inside pool (·.erase pool) do
          match definition.rulesFor variation with
          | .error error => throw (.template error)
          | .ok rules => do
            let total ← Rule.countAllAlong (registry.countReferenceAlong countPool) rules
            return total.doubledIf definition.varyCase
        TrailM.aside (modify (·.insert pool count))
        return count

/-- Counts pools that refer to each other through a number of levels; what is referred to from the
last level is left to `beyond`. -/
def countLevels (registry : Registry) (beyond : CountsPool) : Nat → CountsPool
  | 0 => beyond
  | levels + 1 => registry.countEntered (registry.countLevels beyond levels)

end Registry

/-! ### Expanding along a trail -/

section Expanding

variable (expandReference : Reference → TrailM ExpandState (List Expansion)) (limit : Nat)
  (owner : UnitKey)

mutual

def Content.expandAlong : Content → TrailM ExpandState (List Expansion)
  | .word text => return [.ofText text]
  | .wordGroup text modifiers => TrailM.aside (modifiers.expand [.ofText text])
  | .choice branches modifiers => do
    if branches.isEmpty then
      throw (.template (.emptyChoice owner))
    let base ← if modifiers.canInclude then Rule.expandBranchesAlong [] branches else pure []
    TrailM.aside (modifiers.expand (distinct base))
  | .reference ref => expandReference ref

def Content.expandAllAlong (before : List Expansion) :
    List Content → TrailM ExpandState (List Expansion)
  | [] => return before
  | content :: rest => do
    let alternatives ← content.expandAlong
    let extended ← Expansion.combine limit owner before alternatives
    if extended.isEmpty then return [] else Content.expandAllAlong extended rest

def Rule.expandAlong : Rule → TrailM ExpandState (List Expansion)
  | { contents, .. } => Content.expandAllAlong [{}] contents

def Rule.expandBranchesAlong (before : List Expansion) :
    List Rule → TrailM ExpandState (List Expansion)
  | [] => return before
  | branch :: rest => do
    let all := before ++ (← branch.expandAlong)
    TrailM.aside (ExpandM.checkLimit limit owner all.length)
    Rule.expandBranchesAlong all rest

end

/-- Expands the rules of a pool and finishes the results; what finishes them has nothing to do with
the trail. -/
def Definition.expandRulesAlong (definition : Definition) (argument : Option String)
    (rules : List Rule) : TrailM ExpandState (List Expansion) := do
  let all ← rules.foldlM (fun found rule => do
    let expansions ← rule.expandAlong expandReference limit definition.key
    TrailM.aside (definition.expandRule limit argument (fun _ => return expansions) found rule)) #[]
  return distinct all.toList

end Expanding

/-- What expands a pool, by its unit, the variation and the value of the argument. -/
abbrev ExpandsPool :=
  Definition → Option String → Option String → TrailM ExpandState (List Expansion)

namespace Registry

/-- The alternatives of a reference; `expandPool` expands the pools that are not left out. -/
def expandReferenceAlong (registry : Registry) (expandPool : ExpandsPool) (ref : Reference) :
    TrailM ExpandState (List Expansion) :=
  match registry.get? ref.target with
  | none => throw (.template (.undefinedUnit ref.target))
  | some target => do
    let base ←
      if ref.modifiers.canInclude then
        expandPool target ref.variation ref.modifiers.argumentValue
      else
        pure []
    TrailM.aside (ref.modifiers.expand base)

/-- Expands a pool unless its expansions are known; a pool on the trail is refused. In the end the
last pool is taken off the trail, whichever it is. `expandPool` expands the pools that it refers to.
-/
def expandEntered (registry : Registry) (limit : Nat) (expandPool : ExpandsPool) : ExpandsPool :=
  fun definition variation argument => do
    let call : PoolCall := ⟨⟨definition.key, variation⟩, argument⟩
    let start ← get
    match start.state.cache[call]? with
    | some expansions => return expansions
    | none =>
      if call.pool ∈ start.trail then
        throw (.recursiveExpansion definition.key)
      else
        let expansions ← TrailM.inside call.pool List.tail do
          match definition.rulesFor variation with
          | .error error => throw (.template error)
          | .ok rules =>
            definition.expandRulesAlong (registry.expandReferenceAlong expandPool) limit argument
              rules
        TrailM.aside (modify fun state =>
          { state with cache := state.cache.insert call expansions })
        return expansions

/-- Expands pools that refer to each other through a number of levels; what is referred to from the
last level is left to `beyond`. -/
def expandLevels (registry : Registry) (limit : Nat) (beyond : ExpandsPool) : Nat → ExpandsPool
  | 0 => beyond
  | levels + 1 => registry.expandEntered limit (registry.expandLevels limit beyond levels)

/-- All examples of a pool of a unit, found through a number of levels. -/
def examplesLevels (registry : Registry) (limit : Nat) (beyond : ExpandsPool) (levels : Nat)
    (definition : Definition) (variation argument : Option String) :
    TrailM ExpandState (List Example) := do
  return distinct
    ((← registry.expandLevels limit beyond levels definition variation argument).map (·.result))

end Registry

/-! ### Counting and expanding inside pools -/

namespace Registry

/-- Counts a pool inside the given pools. -/
def countInside (registry : Registry) (trail : List PoolKey) (definition : Definition)
    (variation : Option String) : CountM Possibilities :=
  definition.countPool variation trail fun rules _ _ =>
    Rule.countAll (registry.countReference (⟨definition.key, variation⟩ :: trail)) rules

def examplesInside (registry : Registry) (limit : Nat) (trail : List PoolKey)
    (definition : Definition) (variation argument : Option String) : ExpandM (List Example) := do
  let expansions ← registry.expandInside limit trail definition variation argument
  return distinct (expansions.map (·.result))

theorem countInside_nil (registry : Registry) (definition : Definition)
    (variation : Option String) :
    registry.countInside [] definition variation = registry.countUnit definition variation := rfl

theorem examplesInside_nil (registry : Registry) (limit : Nat) (definition : Definition)
    (variation argument : Option String) :
    registry.examplesInside limit [] definition variation argument =
      registry.examplesOf limit definition variation argument := rfl

end Registry

/-! ### Computations that leave the trail as it was -/

/-- The trail stands beside the second state, and was not longer than the top so far. -/
structure Trailed.Along (top : Nat) (trail : List PoolKey) (trailed : Trailed σ) (state : σ) :
    Prop where
  state_eq : trailed.state = state
  trail_eq : trailed.trail = trail
  deepest_le : trailed.deepest ≤ top

/-- Along the trail the first computation does what the second does, and comes back to the trail,
whether it succeeds or fails; on the way the trail is not longer than the top. -/
abbrev Retraces (top : Nat) (trail : List PoolKey) (x : TrailM σ α)
    (y : ExceptT GenerationError (StateM σ) α) : Prop :=
  Alike True (Trailed.Along top trail) (fun _ => True) x y

namespace Retraces

variable {top : Nat} {trail : List PoolKey} {x : TrailM σ α}
  {y : ExceptT GenerationError (StateM σ) α}

theorem aside (y : ExceptT GenerationError (StateM σ) α) :
    Retraces top trail (TrailM.aside y) y := by
  refine alike_true_iff.mpr ?_
  rintro start _ ⟨rfl, htrail, hdeepest⟩
  exact ⟨rfl, ⟨rfl, htrail, hdeepest⟩, fun _ _ => trivial⟩

/-- What is found is kept for later, and returned. -/
theorem keep (change : σ → σ) (a : α) :
    Retraces top trail (do TrailM.aside (modify change); return a) (do modify change; return a) :=
  (aside _).bind fun _ _ => .pure_any _

/-- Where there is room for another pool, what is done inside it is done along the longer trail. -/
theorem inside {pool : PoolKey} {leave : List PoolKey → List PoolKey}
    (hroom : trail.length < top) (hleave : leave (pool :: trail) = trail)
    (h : Retraces top (pool :: trail) x y) :
    Retraces top trail (TrailM.inside pool leave x) y := by
  rw [Retraces, alike_true_iff] at h ⊢
  rintro start _ ⟨rfl, rfl, hdeepest⟩
  obtain ⟨hresult, hinside, -⟩ :=
    h (start.enter pool) start.state ⟨rfl, rfl, Nat.max_le.mpr ⟨hdeepest, hroom⟩⟩
  exact ⟨hresult, ⟨hinside.state_eq, (congrArg leave hinside.trail_eq).trans hleave,
    hinside.deepest_le⟩, fun _ _ => trivial⟩

/-! ### Counting -/

section Counting

variable {first : Reference → TrailM CountMemo Possibilities}
  {second : Reference → CountM Possibilities}

mutual

theorem countContent : (content : Content) →
    (∀ ref ∈ content.references, Retraces top trail (first ref) (second ref)) →
    Retraces top trail (content.countAlong first) (content.count second)
  | .word _, _ => .pure_any _
  | .wordGroup _ _, _ => .pure_any _
  | .choice branches _, h => by
    rw [Content.references] at h
    exact (countBranches branches h).bind fun _ _ => .pure_any _
  | .reference ref, h => (h ref (by simp [Content.references])).bind fun _ _ => .pure_any _

theorem countContents : (contents : List Content) →
    (∀ ref ∈ Content.referencesOfAll contents, Retraces top trail (first ref) (second ref)) →
    Retraces top trail (Content.countAllAlong first contents) (Content.countAll second contents)
  | [], _ => .pure_any _
  | content :: rest, h => by
    rw [Content.referencesOfAll, List.forall_mem_append] at h
    refine (countContent content h.1).bind fun _ _ => ?_
    exact (countContents rest h.2).bind fun _ _ => .pure_any _

theorem countRule : (rule : Rule) →
    (∀ ref ∈ rule.references, Retraces top trail (first ref) (second ref)) →
    Retraces top trail (rule.countAlong first) (rule.count second)
  | { contents, .. }, h => by
    rw [Rule.references] at h
    exact countContents contents h

theorem countBranches : (branches : List Rule) →
    (∀ ref ∈ Rule.referencesOfAll branches, Retraces top trail (first ref) (second ref)) →
    Retraces top trail (Rule.countAllAlong first branches) (Rule.countAll second branches)
  | [], _ => .pure_any _
  | branch :: rest, h => by
    rw [Rule.referencesOfAll, List.forall_mem_append] at h
    refine (countRule branch h.1).bind fun _ _ => ?_
    exact (countBranches rest h.2).bind fun _ _ => .pure_any _

end

end Counting

/-! ### Expanding -/

section Expanding

variable {first : Reference → TrailM ExpandState (List Expansion)}
  {second : Reference → ExpandM (List Expansion)} {limit : Nat} {owner : UnitKey}

mutual

theorem expandContent : (content : Content) →
    (∀ ref ∈ content.references, Retraces top trail (first ref) (second ref)) →
    Retraces top trail (content.expandAlong first limit owner) (content.expand second limit owner)
  | .word _, _ => .pure_any _
  | .wordGroup _ _, _ => aside _
  | .choice branches modifiers, h => by
    rw [Content.references] at h
    rw [Content.expandAlong, Content.expand]
    split
    · exact .throw _
    dsimp only
    split
    · exact (expandBranches branches [] h).bind fun _ _ => aside _
    · exact (Alike.pure_any []).bind fun _ _ => aside _
  | .reference ref, h => h ref (by simp [Content.references])

theorem expandContents : (contents : List Content) → (before : List Expansion) →
    (∀ ref ∈ Content.referencesOfAll contents, Retraces top trail (first ref) (second ref)) →
    Retraces top trail (Content.expandAllAlong first limit owner before contents)
      (Content.expandAll second limit owner before contents)
  | [], _, _ => .pure_any _
  | content :: rest, before, h => by
    rw [Content.referencesOfAll, List.forall_mem_append] at h
    rw [Content.expandAllAlong, Content.expandAll]
    refine (expandContent content h.1).bind fun alternatives _ => ?_
    refine (Alike.of_except (fun _ h => ⟨trivial, h⟩) fun _ _ h => h).bind fun extended _ => ?_
    split
    · exact .pure_any _
    · exact expandContents rest extended h.2

theorem expandRule : (rule : Rule) →
    (∀ ref ∈ rule.references, Retraces top trail (first ref) (second ref)) →
    Retraces top trail (rule.expandAlong first limit owner) (rule.expand second limit owner)
  | { contents, .. }, h => by
    rw [Rule.references] at h
    exact expandContents contents [{}] h

theorem expandBranches : (branches : List Rule) → (before : List Expansion) →
    (∀ ref ∈ Rule.referencesOfAll branches, Retraces top trail (first ref) (second ref)) →
    Retraces top trail (Rule.expandBranchesAlong first limit owner before branches)
      (Rule.expandBranches second limit owner before branches)
  | [], _, _ => .pure_any _
  | branch :: rest, before, h => by
    rw [Rule.referencesOfAll, List.forall_mem_append] at h
    rw [Rule.expandBranchesAlong, Rule.expandBranches]
    refine (expandRule branch h.1).bind fun expanded _ => ?_
    exact (aside _).bind fun _ _ => expandBranches rest (before ++ expanded) h.2

end

variable (limit) in
theorem expandRules (definition : Definition) (argument : Option String) (rules : List Rule)
    (h : ∀ rule ∈ rules, ∀ ref ∈ rule.references, Retraces top trail (first ref) (second ref)) :
    Retraces top trail (definition.expandRulesAlong first limit argument rules)
      (do
        let all ← rules.foldlM
          (definition.expandRule limit argument (·.expand second limit definition.key)) #[]
        return distinct all.toList) := by
  unfold Definition.expandRulesAlong
  have hrules : Retraces top trail
      (rules.foldlM (fun found rule => do
        let expansions ← rule.expandAlong first limit definition.key
        TrailM.aside (definition.expandRule limit argument (fun _ => return expansions) found rule))
        #[])
      (rules.foldlM
        (definition.expandRule limit argument (·.expand second limit definition.key)) #[]) :=
    .foldlM rules (fun found rule hrule _ =>
      (expandRule rule (h rule hrule)).bind fun _ _ => aside _) trivial
  exact hrules.bind fun _ _ => .pure_any _

end Expanding

/-! ### References and pools -/

section Pools

variable {registry : Registry} {definition : Definition} {variation : Option String}

theorem countReference {countPool : CountsPool} {ref : Reference}
    (h : ∀ target, registry.get? ref.target = some target →
      Retraces top trail (countPool target ref.variation)
        (registry.countInside trail target ref.variation)) :
    Retraces top trail (registry.countReferenceAlong countPool ref)
      (registry.countReference trail ref) := by
  unfold Registry.countReferenceAlong
  cases htarget : registry.get? ref.target with
  | none =>
    rw [Registry.countReference_of_none htarget]
    exact .throw _
  | some target =>
    rw [Registry.countReference_of_some htarget]
    by_cases hinclude : ref.modifiers.canInclude
    · rw [if_pos hinclude]
      simp only [if_pos hinclude]
      exact h target htarget
    · rw [if_neg hinclude]
      simp only [if_neg hinclude]
      exact .pure_any _

/-- A pool is counted alike where there is room for it and its references are counted alike inside
it. -/
theorem countEntered {countPool : CountsPool}
    (hroom : ⟨definition.key, variation⟩ ∉ trail → trail.length < top)
    (h : ∀ ref ∈ definition.references, ⟨definition.key, variation⟩ ∉ trail →
      Retraces top (⟨definition.key, variation⟩ :: trail)
        (registry.countReferenceAlong countPool ref)
        (registry.countReference (⟨definition.key, variation⟩ :: trail) ref)) :
    Retraces top trail (registry.countEntered countPool definition variation)
      (registry.countInside trail definition variation) := by
  unfold Registry.countEntered Registry.countInside Definition.countPool
  refine .get_bind ?_
  rintro start _ ⟨rfl, htrail, -⟩
  dsimp only
  cases start.state[(⟨definition.key, variation⟩ : PoolKey)]? with
  | some count => exact .pure_any _
  | none =>
    rw [htrail]
    by_cases hfresh : (⟨definition.key, variation⟩ : PoolKey) ∉ trail
    · have hleave := List.erase_cons_head (⟨definition.key, variation⟩ : PoolKey) trail
      dsimp only
      rw [if_neg hfresh, dif_pos hfresh]
      split
      · next error herror =>
        rw [herror]
        exact (inside (hroom hfresh) hleave (.throw _)).bind fun _ _ => keep _ _
      · next rules hrules =>
        rw [hrules]
        have hrules := countBranches rules fun ref href =>
          h ref (Registry.mem_references_of_rulesFor hrules href) hfresh
        have hcount := hrules.bind fun total _ =>
          .pure_any (total.doubledIf definition.varyCase)
        simpa only [bind_assoc, pure_bind] using
          (inside (hroom hfresh) hleave hcount).bind fun count _ => keep _ count
    · rw [if_pos (not_not.mp hfresh), dif_neg hfresh]
      exact .pure_any _

theorem expandReference {limit : Nat} {expandPool : ExpandsPool} {ref : Reference}
    (h : ∀ target, registry.get? ref.target = some target →
      Retraces top trail (expandPool target ref.variation ref.modifiers.argumentValue)
        (registry.expandInside limit trail target ref.variation ref.modifiers.argumentValue)) :
    Retraces top trail (registry.expandReferenceAlong expandPool ref)
      (registry.expandReference limit trail ref) := by
  unfold Registry.expandReferenceAlong
  cases htarget : registry.get? ref.target with
  | none =>
    rw [Registry.expandReference_of_none htarget]
    exact .throw _
  | some target =>
    rw [Registry.expandReference_of_some htarget]
    by_cases hinclude : ref.modifiers.canInclude
    · rw [if_pos hinclude]
      simp only [if_pos hinclude]
      exact (h target htarget).bind fun _ _ => aside _
    · rw [if_neg hinclude]
      simp only [if_neg hinclude]
      exact (Alike.pure_any []).bind fun _ _ => aside _

/-- A pool is expanded alike where there is room for it and its references are expanded alike
inside it. -/
theorem expandEntered {limit : Nat} {expandPool : ExpandsPool} {argument : Option String}
    (hroom : ⟨definition.key, variation⟩ ∉ trail → trail.length < top)
    (h : ∀ ref ∈ definition.references, ⟨definition.key, variation⟩ ∉ trail →
      Retraces top (⟨definition.key, variation⟩ :: trail)
        (registry.expandReferenceAlong expandPool ref)
        (registry.expandReference limit (⟨definition.key, variation⟩ :: trail) ref)) :
    Retraces top trail (registry.expandEntered limit expandPool definition variation argument)
      (registry.expandInside limit trail definition variation argument) := by
  unfold Registry.expandEntered Registry.expandInside Definition.expandPool
  refine .get_bind ?_
  rintro start _ ⟨rfl, htrail, -⟩
  dsimp only
  cases start.state.cache[(⟨⟨definition.key, variation⟩, argument⟩ : PoolCall)]? with
  | some expansions => exact .pure_any _
  | none =>
    rw [htrail]
    by_cases hfresh : (⟨definition.key, variation⟩ : PoolKey) ∉ trail
    · dsimp only
      rw [if_neg hfresh, dif_pos hfresh]
      split
      · next error herror =>
        rw [herror]
        exact (inside (hroom hfresh) rfl (.throw _)).bind fun _ _ => keep _ _
      · next rules hrules =>
        rw [hrules]
        have hexpand := expandRules limit definition argument rules fun rule hrule ref href =>
          h ref (Registry.mem_references_of_rule hrules hrule href) hfresh
        simpa only [bind_assoc, pure_bind] using
          (inside (hroom hfresh) rfl hexpand).bind fun expansions _ => keep _ expansions
    · dsimp only
      rw [if_pos (not_not.mp hfresh), dif_neg hfresh]
      exact .throw _

end Pools

end Retraces

/-! ### Room on the trail -/

namespace Registry

variable {registry : Registry} {definition : Definition} {variation : Option String}
  {start : PoolKey} {outer trail : List PoolKey} {levels top : Nat}

/-- The pools that may be met from a pool: itself, and those that the units refer to, whether or not
they exist. -/
def mentions (registry : Registry) (start : PoolKey) : Finset PoolKey :=
  (start :: registry.units.flatMap fun user => user.references.map Reference.pool).toFinset

theorem start_mem_mentions : start ∈ registry.mentions start :=
  List.mem_toFinset.mpr List.mem_cons_self

theorem pool_mem_mentions (hdefinition : registry.get? definition.key = some definition)
    {ref : Reference} (href : ref ∈ definition.references) :
    ref.pool ∈ registry.mentions start := by
  refine List.mem_toFinset.mpr (List.mem_cons_of_mem _ (List.mem_flatMap.mpr ?_))
  exact ⟨definition, mem_units_of_get? hdefinition, List.mem_map.mpr ⟨ref, href, rfl⟩⟩

/-- The pools that were entered since the start are mentioned and differ from each other, and the
levels that are left are more than the pools that can still be entered. -/
def Room (registry : Registry) (start : PoolKey) (outer trail : List PoolKey) (levels : Nat) :
    Prop :=
  ∃ entered, trail = entered ++ outer ∧ entered.Nodup ∧
    (∀ pool ∈ entered, pool ∈ registry.mentions start) ∧
    (registry.mentions start).card < levels + entered.length

theorem length_le_card {entered : List PoolKey} (hnodup : entered.Nodup)
    (hmentions : ∀ pool ∈ entered, pool ∈ registry.mentions start) :
    entered.length ≤ (registry.mentions start).card := by
  rw [← List.toFinset_card_of_nodup hnodup]
  exact Finset.card_le_card fun pool hpool => hmentions pool (List.mem_toFinset.mp hpool)

theorem room_start (hlevels : (registry.mentions start).card < levels) :
    registry.Room start outer outer levels :=
  ⟨[], rfl, .nil, fun _ hpool => (List.not_mem_nil hpool).elim, hlevels⟩

theorem Room.levels_ne_zero (hroom : registry.Room start outer trail levels) : levels ≠ 0 := by
  obtain ⟨entered, -, hnodup, hmentions, hlevels⟩ := hroom
  have := length_le_card hnodup hmentions
  omega

/-- Entering a mentioned pool that is not on the trail takes a level, and there is room for it. -/
theorem Room.enter {pool : PoolKey} (hroom : registry.Room start outer trail (levels + 1))
    (hpool : pool ∈ registry.mentions start) (hfresh : pool ∉ trail) :
    registry.Room start outer (pool :: trail) levels ∧
      trail.length < outer.length + (registry.mentions start).card := by
  obtain ⟨entered, rfl, hnodup, hmentions, hlevels⟩ := hroom
  have hnodup' : (pool :: entered).Nodup :=
    List.nodup_cons.mpr ⟨fun hmem => hfresh (List.mem_append_left _ hmem), hnodup⟩
  have hmentions' : ∀ other ∈ pool :: entered, other ∈ registry.mentions start :=
    List.forall_mem_cons.mpr ⟨hpool, hmentions⟩
  have hlength := length_le_card hnodup' hmentions'
  rw [List.length_cons] at hlength
  refine ⟨⟨pool :: entered, rfl, hnodup', hmentions', ?_⟩, ?_⟩
  · rw [List.length_cons]
    omega
  · rw [List.length_append]
    omega

/-! ### Counting and expanding with enough levels -/

/-- With a level for each pool that can still be entered and one more, counting a pool along a trail
is counting it inside the pools of the trail. -/
theorem retraces_countLevels (beyond : CountsPool)
    (hdefinition : registry.get? definition.key = some definition)
    (hpool : ⟨definition.key, variation⟩ ∈ registry.mentions start)
    (hroom : registry.Room start outer trail levels)
    (htop : outer.length + (registry.mentions start).card ≤ top) : Retraces top trail
      (registry.countLevels beyond levels definition variation)
      (registry.countInside trail definition variation) := by
  induction levels generalizing definition variation trail with
  | zero => exact (hroom.levels_ne_zero rfl).elim
  | succ levels ih =>
    refine .countEntered (fun hfresh => (hroom.enter hpool hfresh).2.trans_le htop)
      fun ref href hfresh => ?_
    refine .countReference fun target htarget => ?_
    have hmentioned : ref.pool ∈ registry.mentions start := pool_mem_mentions hdefinition href
    rw [Reference.pool, ← key_of_get? htarget] at hmentioned
    exact ih (get?_key htarget) hmentioned (hroom.enter hpool hfresh).1

/-- With as many levels, expanding a pool along a trail is expanding it inside the pools of the
trail. -/
theorem retraces_expandLevels (limit : Nat) (beyond : ExpandsPool) (argument : Option String)
    (hdefinition : registry.get? definition.key = some definition)
    (hpool : ⟨definition.key, variation⟩ ∈ registry.mentions start)
    (hroom : registry.Room start outer trail levels)
    (htop : outer.length + (registry.mentions start).card ≤ top) : Retraces top trail
      (registry.expandLevels limit beyond levels definition variation argument)
      (registry.expandInside limit trail definition variation argument) := by
  induction levels generalizing definition variation argument trail with
  | zero => exact (hroom.levels_ne_zero rfl).elim
  | succ levels ih =>
    refine .expandEntered (fun hfresh => (hroom.enter hpool hfresh).2.trans_le htop)
      fun ref href hfresh => ?_
    refine .expandReference fun target htarget => ?_
    have hmentioned : ref.pool ∈ registry.mentions start := pool_mem_mentions hdefinition href
    rw [Reference.pool, ← key_of_get? htarget] at hmentioned
    exact ih _ (get?_key htarget) hmentioned (hroom.enter hpool hfresh).1

end Registry

/-- From every state and every trail there is an end that is reached with any number of levels above
a bound, whatever is beyond the last one: the trail is as it was, and on the way it was never longer
by more than the bound. From the empty trail, the second computation comes to the same end. -/
def Terminates {Beyond : Type} (bound : Nat) (levelled : Beyond → Nat → TrailM σ α)
    (plain : ExceptT GenerationError (StateM σ) α) : Prop :=
  ∀ start : Trailed σ, ∃ result state,
    (∀ beyond levels, bound < levels →
      ∃ deepest ≤ max start.deepest (start.trail.length + bound),
        (levelled beyond levels).run start = (result, ⟨state, start.trail, deepest⟩)) ∧
    (start.trail = [] → plain.run start.state = (result, state))

theorem terminates_of_retraces {Beyond : Type} {bound : Nat} {levelled : Beyond → Nat → TrailM σ α}
    (inside : List PoolKey → ExceptT GenerationError (StateM σ) α)
    (h : ∀ top trail beyond levels, trail.length + bound ≤ top → bound < levels →
      Retraces top trail (levelled beyond levels) (inside trail)) :
    Terminates bound levelled (inside []) := by
  intro start
  refine ⟨((inside start.trail).run start.state).1, ((inside start.trail).run start.state).2,
    fun beyond levels hlevels => ?_, fun htrail => by rw [htrail, Prod.mk.eta]⟩
  have hretraces := h (max start.deepest (start.trail.length + bound)) start.trail beyond levels
    (Nat.le_max_right _ _) hlevels
  obtain ⟨hresult, hback, -⟩ :=
    alike_true_iff.mp hretraces start start.state ⟨rfl, rfl, Nat.le_max_left _ _⟩
  exact ⟨_, hback.deepest_le, Prod.ext hresult (by rw [← hback.state_eq, ← hback.trail_eq])⟩

namespace Registry

variable {registry : Registry} {definition : Definition}

/-- On every template, with cycles or units that do not exist or whatever else is wrong with it,
counting and expanding a pool of a unit come to an end, from every memo and from every state of the
expansions, inside no more pools than the start and the references name. Where they end, with a
result or an error, every pool that was entered is left. -/
theorem terminates_countUnit_examplesOf
    (hdefinition : registry.get? definition.key = some definition) (variation : Option String) :
    Terminates (registry.mentions ⟨definition.key, variation⟩).card
      (fun beyond levels => registry.countLevels beyond levels definition variation)
      (registry.countUnit definition variation) ∧
    ∀ limit argument, Terminates (registry.mentions ⟨definition.key, variation⟩).card
      (fun beyond levels =>
        registry.examplesLevels limit beyond levels definition variation argument)
      (registry.examplesOf limit definition variation argument) := by
  refine ⟨?_, fun limit argument => ?_⟩
  · rw [← countInside_nil]
    refine terminates_of_retraces (registry.countInside · definition variation)
      fun top trail beyond levels htop hlevels => ?_
    exact retraces_countLevels beyond hdefinition start_mem_mentions (room_start hlevels) htop
  · rw [← examplesInside_nil]
    refine terminates_of_retraces (registry.examplesInside limit · definition variation argument)
      fun top trail beyond levels htop hlevels => ?_
    exact (retraces_expandLevels limit beyond argument hdefinition start_mem_mentions
      (room_start hlevels) htop).bind fun _ _ => .pure_any _

end Registry

/-! A unit that refers to itself, to a variation that it does not have and to a unit that does not
exist. -/

namespace Round

def tune : Definition where
  key := ⟨.shared, "round"⟩
  rules := [
    { contents := [.reference { target := ⟨.shared, "round"⟩ },
      .reference { target := ⟨.slot, "person"⟩ }] },
    { contents := [.reference { target := ⟨.shared, "round"⟩, variation := some "loud" }] }]

def phrasebook : Registry := (Registry.ofUnits [tune]).toOption.getD .empty

theorem card_mentions_tune : (phrasebook.mentions ⟨tune.key, none⟩).card = 3 := by rfl

theorem terminates_tune :
    phrasebook.check ≠ .ok () ∧ phrasebook.get? tune.key = some tune ∧
    Terminates 3 (fun beyond levels => phrasebook.countLevels beyond levels tune none)
      (phrasebook.countUnit tune none) ∧
    Terminates 3 (fun beyond levels => phrasebook.examplesLevels 8 beyond levels tune none none)
      (phrasebook.examplesOf 8 tune none none) := by
  have hround : phrasebook.get? tune.key = some tune := by rfl
  obtain ⟨hcount, hexpand⟩ := Registry.terminates_countUnit_examplesOf hround none
  rw [card_mentions_tune] at hcount hexpand
  exact ⟨by decide +kernel, hround, hcount, hexpand 8 none⟩

/-- Counting stops at the unit that does not exist, and the trail is left behind. -/
example : (fun stop => (stop.1, stop.2.trail, stop.2.deepest))
    ((phrasebook.countLevels (fun _ _ => pure 0) 4 tune none).run ⟨∅, [], 0⟩) =
      (.error (.template (.undefinedUnit ⟨.slot, "person"⟩)), [], 1) := by rfl

end Round

end Phrasebook
