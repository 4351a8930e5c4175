import Phrasebook.Proofs.ReferenceOrder

/-! Counts are exact. Without memo, pools being counted and machine numbers, the number of alternatives
of a pool is given by a recursion over its contents: alternatives add up, contents multiply, a content
that varies in case counts twice, one that can never be there counts nothing, and one that may be left
out counts once more. Where the units have an order, this recursion comes to an end, and the count of a
pool is its number, or unbounded from 2^64 on, whatever was counted before. -/

namespace Phrasebook

section Contents

variable (number : Reference → Nat)

mutual

/-- The number of alternatives of a content; `number` gives that of the pool that a reference draws
from. -/
def Content.number : Content → Nat
  | .word _ => 1
  | .wordGroup _ modifiers => modifiers.weight 1
  | .choice branches modifiers => modifiers.weight (Rule.numberAll branches)
  | .reference ref => ref.modifiers.weight (number ref)

/-- The product of the numbers of contents. -/
def Content.numberAll : List Content → Nat
  | [] => 1
  | content :: rest => content.number * Content.numberAll rest

def Rule.number : Rule → Nat
  | { contents, .. } => Content.numberAll contents

/-- The sum of the numbers of rules. -/
def Rule.numberAll : List Rule → Nat
  | [] => 0
  | rule :: rest => rule.number + Rule.numberAll rest

end

end Contents

namespace Registry

/-- The number of the pool that a reference draws from. -/
def numberOf (registry : Registry) (number : Definition → Option String → Nat)
    (ref : Reference) : Nat :=
  match registry.get? ref.target with
  | none => 0
  | some target => number target ref.variation

/-- The numbers of the pools obey the recursion over their contents. -/
def Numbers (registry : Registry) (number : Definition → Option String → Nat) : Prop :=
  ∀ definition variation rules, registry.get? definition.key = some definition →
    definition.rulesFor variation = .ok rules → number definition variation =
      doubledIf definition.varyCase (Rule.numberAll (registry.numberOf number) rules)

/-- The number of a pool, with at most `depth` units one inside the other. -/
def numberWithin (registry : Registry) : Nat → Definition → Option String → Nat
  | 0, _, _ => 0
  | depth + 1, definition, variation =>
    match definition.rulesFor variation with
    | .error _ => 0
    | .ok rules => doubledIf definition.varyCase
        (Rule.numberAll (registry.numberOf (registry.numberWithin depth)) rules)

variable {registry : Registry}

theorem numberOf_of_some {number : Definition → Option String → Nat} {ref : Reference}
    {target : Definition} (h : registry.get? ref.target = some target) :
    registry.numberOf number ref = number target ref.variation := by
  rw [numberOf, h]

theorem numberWithin_succ {depth : Nat} {definition : Definition} {variation : Option String}
    {rules : List Rule} (h : definition.rulesFor variation = .ok rules) :
    registry.numberWithin (depth + 1) definition variation = doubledIf definition.varyCase
      (Rule.numberAll (registry.numberOf (registry.numberWithin depth)) rules) := by
  rw [numberWithin, h]

end Registry

/-! ### The numbers are weights -/

theorem Modifiers.weight_of_skipped {modifiers : Modifiers} (h : modifiers.canInclude = false)
    (n : Nat) : modifiers.weight n = modifiers.weight 0 := by
  simp [weight, h]

/-- The numbers of the references are the weights of the pools that they draw from. -/
def Registry.WeighsEach (registry : Registry) (number : Reference → Nat) (refs : List Reference) :
    Prop :=
  ∀ ref ∈ refs, ∀ target, registry.get? ref.target = some target →
    registry.Valid (.pool target ref.variation ref.modifiers.argumentValue) →
    registry.Weighs (.pool target ref.variation ref.modifiers.argumentValue) (number ref)

section Weights

variable {registry : Registry} {number : Reference → Nat}

mutual

theorem Content.weighs_number : (content : Content) → registry.Valid (.content content) →
    registry.WeighsEach number content.references →
    registry.Weighs (.content content) (content.number number)
  | .word text, _, _ => .word text
  | .wordGroup text modifiers, _, _ => .wordGroup text modifiers
  | .choice branches modifiers, hvalid, h => by
    obtain ⟨hne, hbranches⟩ := hvalid.choice
    rw [Content.number]
    cases hinclude : modifiers.canInclude with
    | true => exact .choice hne hinclude (Rule.weighs_numberAll branches hbranches h)
    | false =>
      rw [Modifiers.weight_of_skipped hinclude]
      exact .skippedChoice hinclude
  | .reference ref, hvalid, h => by
    obtain ⟨target, htarget, hpool⟩ := hvalid.reference
    rw [Content.number]
    cases hinclude : ref.modifiers.canInclude with
    | true => exact .reference htarget hinclude (h ref List.mem_cons_self target htarget hpool)
    | false =>
      rw [Modifiers.weight_of_skipped hinclude]
      exact .skippedReference hinclude

theorem Content.weighs_numberAll : (contents : List Content) →
    registry.Valid (.contents contents) →
    registry.WeighsEach number (Content.referencesOfAll contents) →
    registry.Weighs (.contents contents) (Content.numberAll number contents)
  | [], _, _ => .nil
  | content :: rest, hvalid, h => by
    obtain ⟨hcontent, hrest⟩ := hvalid.cons
    obtain ⟨hfirst, hbehind⟩ := List.forall_mem_append.mp h
    exact .cons (Content.weighs_number content hcontent hfirst)
      (Content.weighs_numberAll rest hrest hbehind)

theorem Rule.weighs_number : (rule : Rule) → registry.Valid (.contents rule.contents) →
    registry.WeighsEach number rule.references →
    registry.Weighs (.contents rule.contents) (rule.number number)
  | { contents, .. }, hvalid, h => Content.weighs_numberAll contents hvalid h

theorem Rule.weighs_numberAll : (rules : List Rule) → registry.Valid (.branches rules) →
    registry.WeighsEach number (Rule.referencesOfAll rules) →
    registry.Weighs (.branches rules) (Rule.numberAll number rules)
  | [], _, _ => .noBranch
  | rule :: rest, hvalid, h => by
    obtain ⟨hbranch, hrest⟩ := hvalid.branch
    obtain ⟨hfirst, hbehind⟩ := List.forall_mem_append.mp h
    exact .branch (Rule.weighs_number rule hbranch hfirst)
      (Rule.weighs_numberAll rest hrest hbehind)

end

end Weights

namespace Registry

variable {registry : Registry} {order : List UnitKey}

/-- A unit in the order refers only to those before it, so that its place bounds the depth. -/
theorem Orders.weighs_numberWithin (horder : registry.Orders order) {depth : Nat}
    {before after : List UnitKey} {definition : Definition} {variation argument : Option String}
    (hplace : order = before ++ definition.key :: after) (hdepth : before.length < depth)
    (hvalid : registry.Valid (.pool definition variation argument)) :
    registry.Weighs (.pool definition variation argument)
      (registry.numberWithin depth definition variation) := by
  induction depth generalizing before after definition variation argument with
  | zero => exact (Nat.not_lt_zero _ hdepth).elim
  | succ depth ih =>
    obtain ⟨hdefinition, rules, hrules⟩ := hvalid.2
    rw [numberWithin_succ hrules]
    refine .pool hrules (Rule.weighs_numberAll rules (hvalid.pool hrules) ?_)
    intro ref href target htarget hpool
    rw [numberOf_of_some htarget]
    have hrefers : registry.Refers target.key definition.key :=
      ⟨definition, hdefinition, ref, mem_references_of_rulesFor hrules href,
        (key_of_get? htarget).symm⟩
    obtain ⟨earlier, later, rfl⟩ :=
      List.append_of_mem (horder.behind before definition.key after hplace _ hrefers)
    rw [List.append_assoc, List.cons_append] at hplace
    refine ih hplace ?_ hpool
    rw [List.length_append, List.length_cons] at hdepth
    omega

theorem Orders.weighs_number (horder : registry.Orders order) {definition : Definition}
    {variation argument : Option String}
    (hvalid : registry.Valid (.pool definition variation argument)) :
    registry.Weighs (.pool definition variation argument)
      (registry.numberWithin order.length definition variation) := by
  have hnamed : registry.Named definition.key := .inl ⟨definition, hvalid.2.1⟩
  obtain ⟨before, after, rfl⟩ := List.append_of_mem ((horder.mem_iff _).mpr hnamed)
  exact horder.weighs_numberWithin rfl (by simp) hvalid

/-- Where the units have an order, the recursion comes to an end. -/
theorem Orders.numbers (horder : registry.Orders order) (hcheck : registry.check = .ok ()) :
    registry.Numbers (registry.numberWithin order.length) := by
  intro definition variation rules hdefinition hrules
  have hvalid : registry.Valid (.pool definition variation none) :=
    ⟨hcheck, hdefinition, rules, hrules⟩
  have hnumbers : registry.WeighsEach (registry.numberOf (registry.numberWithin order.length))
      (Rule.referencesOfAll rules) := by
    intro ref _ target htarget hpool
    rw [numberOf_of_some htarget]
    exact horder.weighs_number hpool
  have hbranches := Rule.weighs_numberAll rules (hvalid.pool hrules) hnumbers
  exact (horder.weighs_number hvalid).unique (.pool hrules hbranches)

/-- In a valid template whose units have an order, each count is exact, whatever was counted before. -/
theorem exists_numbers (hcheck : registry.check = .ok ())
    (horder : (ReferenceGraph.ofRegistry registry).summary.order?.isSome = true) :
    ∃ number, registry.Numbers number ∧ ∀ definition variation memo,
      registry.get? definition.key = some definition → variation ∈ definition.poolNames →
      registry.Counted memo → ((registry.countUnit definition variation).run memo).1 =
        .ok (if number definition variation < UInt64.size
          then .finite (UInt64.ofNat (number definition variation)) else .unbounded) := by
  obtain ⟨order, horder⟩ := Option.isSome_iff_exists.mp horder
  have horders := orders_of_summary horder
  refine ⟨_, horders.numbers hcheck, fun definition variation memo hdefinition hpool hmemo => ?_⟩
  obtain ⟨rules, hrules⟩ :=
    (Definition.check_iff.mp (Registry.check_iff.mp hcheck _ _ hdefinition)).1 variation hpool
  obtain ⟨count, hcount⟩ := hmemo.exists_count hcheck hdefinition hrules
  have hfits := hmemo.fitsPool (weighed_kept horders.acyclic.loopsCounted) hdefinition hcount
  have hvalid : registry.Valid (.pool definition variation none) :=
    ⟨hcheck, hdefinition, rules, hrules⟩
  rw [hcount, hfits.fits none _ (horders.weighs_number hvalid)]
  rfl

end Registry

/-! An intent with few alternatives, and one with 2^64 of them. -/

namespace Greetings

def name : Definition where
  key := ⟨.slot, "name"⟩
  rules := ["Ada", "Bo", "Cy"].map fun text => { contents := [.word text] }

def shortOpenings : List Rule := [{ contents := [.word "hi "] }, { contents := [.word "hey "] }]

def opening : Definition :=
  Definition.withVariation
    { key := ⟨.shared, "opening"⟩, rules := [{ contents := [.word "good day "] }] }
    "short" shortOpenings

def greet : Definition where
  key := ⟨.intent, "greet"⟩
  rules := [{ contents := [
    .reference { target := opening.key, variation := some "short", modifiers := .optional "" 50 },
    .reference { target := name.key }] }]

def shout : Definition where
  key := ⟨.intent, "shout"⟩
  rules := [{ contents := List.replicate 64 (.wordGroup "a" { varyCase := true }) }]

def phrasebook : Registry := (Registry.ofUnits [name, opening, greet, shout]).toOption.getD .empty

theorem number_greet {number : Definition → Option String → Nat}
    (h : phrasebook.Numbers number) : number greet none = 9 := by
  have hname : number name none = 3 := h name none name.rules (by rfl) (by rfl)
  have hopening : number opening (some "short") = 2 :=
    h opening (some "short") shortOpenings (by rfl) (by rfl)
  have hgreet : number greet none =
      (Modifiers.optional "" 50).weight (number opening (some "short")) *
        (Modifiers.weight {} (number name none) * 1) + 0 :=
    h greet none greet.rules (by rfl) (by rfl)
  rw [hgreet, hopening, hname]
  rfl

theorem numberAll_replicate (number : Reference → Nat) (text : String) (n : Nat) :
    Content.numberAll number (List.replicate n (.wordGroup text { varyCase := true })) =
      Nat.pow 2 n := by
  induction n with
  | zero => rfl
  | succ n ih =>
    rw [List.replicate_succ, Content.numberAll, ih, Nat.mul_comm]
    rfl

theorem number_shout {number : Definition → Option String → Nat}
    (h : phrasebook.Numbers number) : number shout none = UInt64.size := by
  have hshout : number shout none =
      Content.numberAll (phrasebook.numberOf number)
        (List.replicate 64 (.wordGroup "a" { varyCase := true })) + 0 :=
    h shout none shout.rules (by rfl) (by rfl)
  rw [hshout, Nat.add_zero]
  exact numberAll_replicate _ "a" 64

/-- Both are counted after a query for a variation that is not there. -/
theorem count_greet_and_shout :
    ((phrasebook.countUnit name (some "short")).run ∅).1 =
        .error (.template (.unknownVariation name.key "short")) ∧
      ((phrasebook.countUnit greet none).run
        ((phrasebook.countUnit name (some "short")).run ∅).2).1 = .ok (.finite 9) ∧
      ((phrasebook.countUnit shout none).run
        ((phrasebook.countUnit name (some "short")).run ∅).2).1 = .ok .unbounded := by
  have hcheck : phrasebook.check = .ok () := by rfl
  have horder : (ReferenceGraph.ofRegistry phrasebook).summary.order?.isSome = true := by
    decide +kernel
  obtain ⟨number, hnumbers, hcount⟩ := Registry.exists_numbers hcheck horder
  have hmemo : phrasebook.Counted ((phrasebook.countUnit name (some "short")).run ∅).2 :=
    .unit _ .start fun _ hother => Option.some.inj (hother.symm.trans (by rfl))
  refine ⟨by rfl, ?_, ?_⟩
  · rw [hcount greet none _ (by rfl) List.mem_cons_self hmemo, number_greet hnumbers]
    rfl
  · rw [hcount shout none _ (by rfl) List.mem_cons_self hmemo, number_shout hnumbers]
    rfl

end Greetings

end Phrasebook
