import Phrasebook.Proofs.Alike
import Phrasebook.Sampling

/-! Drawing with a count of the units that are entered. The count goes up where a unit is entered,
down where it is left, and stops a unit where the limit on depth is reached; no unit is told how
deep it is. Without the count this is drawing at the depth at which the count began. Behind a
success and behind a failure the count is what it was before, it was never beyond the limit on the
way, and units never call each other through more levels than there was room for, so that drawing
ends. -/

namespace Phrasebook

variable {Source : Type}

/-- A source of random choices, with a count of the units that are entered and not yet left. -/
structure Metered (Source : Type) where
  source : Source
  depth : Nat
  /-- The greatest depth so far. -/
  deepest : Nat
  depth_le : depth ≤ deepest

/-- The state with a count that begins at a depth. -/
def SampleState.metered (state : SampleState Source) (depth : Nat) :
    SampleState (Metered Source) where
  source := { source := state.source, depth, deepest := depth, depth_le := Nat.le_refl depth }
  decisions := state.decisions
  synonyms := state.synonyms

def SampleState.unmetered (state : SampleState (Metered Source)) : SampleState Source where
  source := state.source.source
  decisions := state.decisions
  synonyms := state.synonyms

namespace Metered

/-- Makes a choice and leaves the count as it is. -/
def choose {α : Type} (choose : Source → α × Source) (meter : Metered Source) :
    α × Metered Source :=
  ((choose meter.source).1, { meter with source := (choose meter.source).2 })

instance [RandomSource Source] : RandomSource (Metered Source) where
  index count h := choose (RandomSource.index count h)
  coin := choose RandomSource.coin

def entered (meter : Metered Source) : Metered Source where
  source := meter.source
  depth := meter.depth + 1
  deepest := max meter.deepest (meter.depth + 1)
  depth_le := Nat.le_max_right _ _

def left (meter : Metered Source) : Metered Source :=
  { meter with
    depth := meter.depth - 1
    depth_le := Nat.le_trans (Nat.sub_le _ _) meter.depth_le }

/-- Enters a unit, unless as many units are entered as the limit allows. -/
def enter (maxDepth : Nat) (unit : UnitKey) : SampleM (Metered Source) Unit := do
  if (← get).source.depth < maxDepth then
    modify fun state => { state with source := state.source.entered }
  else
    throw (.recursionLimit unit .generateRandom maxDepth)

/-- Leaves the unit that was entered last, whether what is done inside it succeeds or fails. -/
def leaveAfter {α : Type} (inside : SampleM (Metered Source) α) : SampleM (Metered Source) α :=
  ExceptT.mk do
    let result ← inside.run
    modify fun state => { state with source := state.source.left }
    return result

end Metered

/-- What draws a unit, by its definition, the variation and the value of the argument. -/
abbrev DrawsUnit (Source : Type) :=
  Definition → Option String → Option String → SampleM Source Example

namespace Registry

section Steps

variable [RandomSource Source]

/-- Draws from a pool of a unit that is entered; `drawUnit` draws the units that it refers to. -/
def drawInside (registry : Registry) (drawUnit : DrawsUnit Source) : DrawsUnit Source :=
  fun definition variation argument => do
    match definition.rulesFor variation with
    | .error error => throw (.template error)
    | .ok rules =>
      match rules[← SampleM.index rules.length]? with
      | none => throw (.template (.missingRules definition.key variation))
      | some rule =>
        let drawn ← rule.draw (registry.drawReference drawUnit) definition.key
        let drawn ← SampleM.drawCase definition.varyCase drawn
        match definition.finish rule argument drawn with
        | .error error => throw (.template error)
        | .ok finished =>
          SampleM.record (definition.recordSlot · finished)
          return finished

theorem drawUnit_of_lt (registry : Registry) {maxDepth depth : Nat} (h : depth < maxDepth) :
    (registry.drawUnit maxDepth depth : DrawsUnit Source) =
      registry.drawInside (registry.drawUnit maxDepth (depth + 1)) := by
  funext definition variation argument
  rw [drawUnit, dif_pos h]
  rfl

theorem drawUnit_of_not_lt (registry : Registry) {maxDepth depth : Nat} (h : ¬depth < maxDepth)
    (definition : Definition) (variation argument : Option String) :
    (registry.drawUnit maxDepth depth definition variation argument : SampleM Source Example) =
      throw (.recursionLimit definition.key .generateRandom maxDepth) := by
  rw [drawUnit, dif_neg h]

end Steps

variable [RandomSource Source]

/-- Enters a unit, draws from its pool and leaves it; `drawUnit` draws the units that it refers to.
-/
def drawEntered (registry : Registry) (maxDepth : Nat) (drawUnit : DrawsUnit (Metered Source)) :
    DrawsUnit (Metered Source) :=
  fun definition variation argument => do
    Metered.enter maxDepth definition.key
    Metered.leaveAfter (registry.drawInside drawUnit definition variation argument)

/-- Draws units that refer to each other through a number of levels; what is referred to from the
last level is left to `beyond`. -/
def drawLevels (registry : Registry) (maxDepth : Nat) (beyond : DrawsUnit (Metered Source)) :
    Nat → DrawsUnit (Metered Source)
  | 0 => beyond
  | levels + 1 => registry.drawEntered maxDepth (registry.drawLevels maxDepth beyond levels)

end Registry

/-! ### Computations that mirror each other -/

/-- The first state is the second one with a count that is at the depth, and that was not beyond the
top so far. -/
structure SampleState.MeteredAs (top depth : Nat) (state : SampleState (Metered Source))
    (plain : SampleState Source) : Prop where
  unmetered_eq : state.unmetered = plain
  depth_eq : state.source.depth = depth
  deepest_le : state.source.deepest ≤ top

/-- From a state at the depth the first computation does what the second does without the count, and
comes back to the depth, whether it succeeds or fails; on the way the count is not beyond the top.
-/
abbrev Mirrors {α : Type} (top depth : Nat) (x : SampleM (Metered Source) α)
    (y : SampleM Source α) : Prop :=
  Alike True (SampleState.MeteredAs top depth) (fun _ => True) x y

namespace Mirrors

variable {α : Type} {maxDepth top depth : Nat} {x : SampleM (Metered Source) α}
  {y : SampleM Source α}

/-- A change that does not look at the count is made alike. -/
theorem modify_alike {change : SampleState (Metered Source) → SampleState (Metered Source)}
    {change' : SampleState Source → SampleState Source}
    (hchange : ∀ state, (change state).unmetered = change' state.unmetered)
    (hsource : ∀ state, (change state).source = state.source) :
    Mirrors top depth (modify change : SampleM (Metered Source) Unit) (modify change') := by
  refine Alike.modify fun state plain h => ⟨?_, ?_, ?_⟩
  · rw [hchange, h.unmetered_eq]
  · rw [hsource, h.depth_eq]
  · rw [hsource]
    exact h.deepest_le

theorem record (change : Synonyms → Synonyms) :
    Mirrors top depth (SampleM.record change : SampleM (Metered Source) Unit)
      (SampleM.record change) :=
  modify_alike (fun _ => rfl) fun _ => rfl

/-- Where there is room for another unit, what is done inside it is done one deeper. -/
theorem enter_leaveAfter {unit : UnitKey} (hroom : depth < maxDepth) (htop : maxDepth ≤ top)
    (h : Mirrors top (depth + 1) x y) :
    Mirrors top depth (Metered.enter maxDepth unit >>= fun _ => Metered.leaveAfter x) y := by
  rw [Mirrors, alike_true_iff] at h ⊢
  rintro state _ ⟨rfl, hdepth, hdeepest⟩
  have henter : (Metered.enter maxDepth unit).run state =
      (.ok (), { state with source := state.source.entered }) := by
    unfold Metered.enter
    rw [run_get_bind, if_pos (hdepth ▸ hroom)]
    rfl
  rw [run_bind_of_ok henter]
  obtain ⟨hresult, hinside, -⟩ := h { state with source := state.source.entered } state.unmetered
    ⟨rfl, congrArg (· + 1) hdepth, Nat.max_le.mpr ⟨hdeepest, by omega⟩⟩
  exact ⟨hresult, ⟨hinside.unmetered_eq, congrArg (· - 1) hinside.depth_eq, hinside.deepest_le⟩,
    fun _ _ => trivial⟩

theorem enter_of_not_lt {unit : UnitKey} (hroom : ¬depth < maxDepth)
    (inside : Unit → SampleM (Metered Source) α) :
    Mirrors top depth (Metered.enter maxDepth unit >>= inside)
      (throw (.recursionLimit unit .generateRandom maxDepth)) := by
  refine alike_true_iff.mpr fun state plain h => ?_
  have henter : (Metered.enter maxDepth unit).run state =
      (.error (.recursionLimit unit .generateRandom maxDepth), state) := by
    unfold Metered.enter
    rw [run_get_bind, if_neg (h.depth_eq ▸ hroom)]
    rfl
  rw [run_bind, henter]
  exact ⟨rfl, h, nofun⟩

theorem draw (choose : Source → α × Source) :
    Mirrors top depth (SampleM.draw (Metered.choose choose)) (SampleM.draw choose) := by
  refine alike_true_iff.mpr ?_
  rintro state _ ⟨rfl, hdepth, hdeepest⟩
  exact ⟨rfl, ⟨rfl, hdepth, hdeepest⟩, fun _ _ => trivial⟩

variable [RandomSource Source]

theorem index (count : Nat) :
    Mirrors top depth (SampleM.index count : SampleM (Metered Source) Nat)
      (SampleM.index count) := by
  unfold SampleM.index
  by_cases hcount : 0 < count
  · rw [dif_pos hcount, dif_pos hcount]
    exact (draw _).bind fun _ _ => .pure_any _
  · rw [dif_neg hcount, dif_neg hcount]
    exact .pure_any _

theorem coin : Mirrors top depth (SampleM.coin : SampleM (Metered Source) Bool) SampleM.coin :=
  draw _

theorem roll (percent : UInt8) :
    Mirrors top depth (SampleM.roll percent : SampleM (Metered Source) Bool)
      (SampleM.roll percent) :=
  (index 100).bind fun _ _ => .pure_any _

theorem decide (key : String) (percent : UInt8) :
    Mirrors top depth (SampleM.decide key percent : SampleM (Metered Source) Bool)
      (SampleM.decide key percent) := by
  unfold SampleM.decide
  refine .get_bind fun state plain h => ?_
  have hsame : plain.decisions = state.decisions := by rw [← h.unmetered_eq]; rfl
  rw [hsame]
  cases state.decisions[key]? with
  | some decision => exact .pure_any _
  | none =>
    refine (roll percent).bind fun decision _ => ?_
    have hinsert : Mirrors top depth
        (modify fun state : SampleState (Metered Source) =>
          { state with decisions := state.decisions.insert key decision })
        (modify fun state : SampleState Source =>
          { state with decisions := state.decisions.insert key decision }) :=
      modify_alike (fun _ => rfl) fun _ => rfl
    exact hinsert.bind fun _ _ => .pure_any _

theorem drawCase (varyCase : Bool) (e : Example) :
    Mirrors top depth (SampleM.drawCase varyCase e : SampleM (Metered Source) Example)
      (SampleM.drawCase varyCase e) := by
  unfold SampleM.drawCase
  cases varyCase with
  | false => exact .pure_any _
  | true => exact coin.bind fun upper _ => (record _).bind fun _ _ => .pure_any _

theorem drawInclusion (modifiers : Modifiers) :
    Mirrors top depth (modifiers.drawInclusion : SampleM (Metered Source) Bool)
      modifiers.drawInclusion := by
  unfold Modifiers.drawInclusion
  split
  · exact .pure_any _
  · exact (roll _).bind fun _ _ => .pure_any _
  · exact (decide _ _).bind fun _ _ => .pure_any _

theorem drawIfIncluded (modifiers : Modifiers) {first : SampleM (Metered Source) Example}
    {second : SampleM Source Example} (h : Mirrors top depth first second) :
    Mirrors top depth (modifiers.drawIfIncluded first) (modifiers.drawIfIncluded second) := by
  refine (drawInclusion modifiers).bind fun present _ => ?_
  cases present with
  | false => exact .pure_any _
  | true => exact h.bind fun e _ => (drawCase _ e).bind fun _ _ => .pure_any _

section Contents

variable {first : Reference → SampleM (Metered Source) Example}
  {second : Reference → SampleM Source Example} {owner : UnitKey}

mutual

theorem drawContent (hreference : ∀ ref, Mirrors top depth (first ref) (second ref)) :
    (content : Content) →
    Mirrors top depth (content.draw first owner) (content.draw second owner)
  | .word _ => .pure_any _
  | .wordGroup _ modifiers => drawIfIncluded modifiers (.pure_any _)
  | .choice branches modifiers => by
    refine drawIfIncluded modifiers ((index _).bind fun place _ => ?_)
    exact drawNth hreference branches place
  | .reference ref => hreference ref

theorem drawAll (hreference : ∀ ref, Mirrors top depth (first ref) (second ref)) :
    (contents : List Content) → (before : Example) →
    Mirrors top depth (Content.drawAll first owner before contents)
      (Content.drawAll second owner before contents)
  | [], _ => .pure_any _
  | content :: rest, _ =>
    (drawContent hreference content).bind fun _ _ => drawAll hreference rest _

theorem drawRule (hreference : ∀ ref, Mirrors top depth (first ref) (second ref)) :
    (rule : Rule) → Mirrors top depth (rule.draw first owner) (rule.draw second owner)
  | { contents, .. } => drawAll hreference contents {}

theorem drawNth (hreference : ∀ ref, Mirrors top depth (first ref) (second ref)) :
    (branches : List Rule) → (place : Nat) →
    Mirrors top depth (Rule.drawNth first owner branches place)
      (Rule.drawNth second owner branches place)
  | [], _ => .throw _
  | branch :: _, 0 => drawRule hreference branch
  | _ :: rest, place + 1 => drawNth hreference rest place

end

end Contents

variable {registry : Registry} {drawUnit : DrawsUnit (Metered Source)}
  {drawUnit' : DrawsUnit Source}

theorem drawReference
    (h : ∀ definition variation argument, Mirrors top depth
      (drawUnit definition variation argument) (drawUnit' definition variation argument))
    (ref : Reference) : Mirrors top depth (registry.drawReference drawUnit ref)
      (registry.drawReference drawUnit' ref) := by
  unfold Registry.drawReference
  cases registry.get? ref.target with
  | none => exact .throw _
  | some target => exact drawIfIncluded ref.modifiers (h _ _ _)

theorem drawInside
    (h : ∀ definition variation argument, Mirrors top depth
      (drawUnit definition variation argument) (drawUnit' definition variation argument))
    (definition : Definition) (variation argument : Option String) : Mirrors top depth
      (registry.drawInside drawUnit definition variation argument)
      (registry.drawInside drawUnit' definition variation argument) := by
  unfold Registry.drawInside
  cases definition.rulesFor variation with
  | error error => exact .throw _
  | ok rules =>
    refine (index rules.length).bind fun place _ => ?_
    cases rules[place]? with
    | none => exact .throw _
    | some rule =>
      refine (drawRule (drawReference h) rule).bind fun drawn _ => ?_
      refine (drawCase definition.varyCase drawn).bind fun variant _ => ?_
      cases definition.finish rule argument variant with
      | error error => exact .throw _
      | ok finished => exact (record _).bind fun _ _ => .pure_any _

/-- Through more levels than there is room for, drawing with the count is drawing, whatever would be
done beyond the last level. -/
theorem drawLevels (registry : Registry) (beyond : DrawsUnit (Metered Source)) {levels : Nat}
    (htop : maxDepth ≤ top) (hlevels : maxDepth - depth < levels) (definition : Definition)
    (variation argument : Option String) : Mirrors top depth
      (registry.drawLevels maxDepth beyond levels definition variation argument)
      (registry.drawUnit maxDepth depth definition variation argument) := by
  induction levels generalizing depth definition variation argument with
  | zero => exact absurd hlevels (Nat.not_lt_zero _)
  | succ levels ih =>
    by_cases hroom : depth < maxDepth
    · rw [registry.drawUnit_of_lt hroom]
      exact enter_leaveAfter hroom htop (drawInside (fun target variation argument =>
        ih (by omega) target variation argument) definition variation argument)
    · rw [registry.drawUnit_of_not_lt hroom]
      exact enter_of_not_lt hroom _

end Mirrors

end Phrasebook
