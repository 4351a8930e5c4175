import Phrasebook.Proofs.Faults
import Phrasebook.Proofs.Isolation
import Phrasebook.Proofs.Scripts

/-! What a template declares can be used. Counting a pool of a template that passed its check stops
for no fault of the template, whatever was counted before; and if a value is given wherever the unit
declares an argument, neither do expanding the pool and drawing from it, also where units refer to
themselves. -/

namespace Phrasebook

namespace Registry

variable {registry : Registry} {definition : Definition} {variation argument : Option String}

/-! ### Counting -/

section Contents

variable {countReference : Reference → CountM Possibilities}

mutual

theorem faultless_count (hreference : registry.FaultlessReferences countReference) :
    (content : Content) → registry.Valid (.content content) →
    Faultless (content.count countReference)
  | .word _, _ => .pure _
  | .wordGroup _ _, _ => .pure _
  | .choice branches _, hvalid =>
    (faultless_countBranches hreference branches hvalid.choice.2).bind fun _ => .pure _
  | .reference ref, hvalid => (hreference ref hvalid).bind fun _ => .pure _

theorem faultless_countAll (hreference : registry.FaultlessReferences countReference) :
    (contents : List Content) → registry.Valid (.contents contents) →
    Faultless (Content.countAll countReference contents)
  | [], _ => .pure _
  | content :: rest, hvalid =>
    (faultless_count hreference content hvalid.cons.1).bind fun _ =>
      (faultless_countAll hreference rest hvalid.cons.2).bind fun _ => .pure _

theorem faultless_countRule (hreference : registry.FaultlessReferences countReference) :
    (rule : Rule) → registry.Valid (.contents rule.contents) →
    Faultless (rule.count countReference)
  | { contents, .. }, hvalid => faultless_countAll hreference contents hvalid

theorem faultless_countBranches (hreference : registry.FaultlessReferences countReference) :
    (branches : List Rule) → registry.Valid (.branches branches) →
    Faultless (Rule.countAll countReference branches)
  | [], _ => .pure _
  | branch :: rest, hvalid =>
    (faultless_countRule hreference branch hvalid.branch.1).bind fun _ =>
      (faultless_countBranches hreference rest hvalid.branch.2).bind fun _ => .pure _

end

end Contents

theorem faultless_countPool {visiting : List PoolKey}
    {countRules : (rules : List Rule) → definition.rulesFor variation = .ok rules →
      ⟨definition.key, variation⟩ ∉ visiting → CountM Possibilities}
    (hvalid : registry.Valid (.pool definition variation argument))
    (hcount : ∀ rules hrules hfresh, registry.Valid (.branches rules) →
      Faultless (countRules rules hrules hfresh)) :
    Faultless (definition.countPool variation visiting countRules) := by
  obtain ⟨rules, hrules⟩ := hvalid.2.2
  intro memo
  unfold Definition.countPool
  refine ends_bind.mpr (ends_get.mpr ?_)
  split
  · exact ends_pure.mpr trivial
  split
  · next hfresh =>
    split
    · next error herror =>
      rw [hrules] at herror
      contradiction
    · next others hothers =>
      have hbranches := hcount others hothers hfresh (hvalid.pool hothers)
      refine hbranches.bind (fun total => ?_) memo
      exact fun _ => trivial
  · exact ends_pure.mpr trivial

theorem faultless_countReference (visiting : List PoolKey) (ref : Reference)
    (hvalid : registry.Valid (.content (.reference ref))) :
    Faultless (registry.countReference visiting ref) := by
  -- Each pool that is entered leaves fewer pools that can still be entered.
  induction hroom : registry.freshPools visiting using Nat.strongRecOn
    generalizing visiting ref with
  | ind room ih =>
    subst hroom
    obtain ⟨target, htarget, hpool⟩ := hvalid.reference
    rw [countReference_of_some htarget]
    by_cases hinclude : ref.modifiers.canInclude
    · rw [if_pos hinclude]
      refine faultless_countPool hpool fun rules hrules hfresh hbranches => ?_
      have hless := registry.freshPools_cons_lt htarget hrules hfresh
      exact faultless_countBranches (fun inner hinner => ih _ hless _ inner hinner rfl) rules
        hbranches
    · rw [if_neg hinclude]
      exact .pure _

theorem faultless_countUnit (hvalid : registry.Valid (.pool definition variation argument)) :
    Faultless (registry.countUnit definition variation) :=
  faultless_countPool hvalid fun rules _ _ hbranches =>
    faultless_countBranches (faultless_countReference [⟨definition.key, variation⟩]) rules hbranches

/-! ### The three uses of a pool -/

theorem valid_of_declared (hcheck : registry.check = .ok ())
    (hdefinition : registry.get? definition.key = some definition)
    (hvariation : ∀ name, variation = some name → definition.variations.contains name = true)
    (argument : Option String) : registry.Valid (.pool definition variation argument) := by
  have hpools := (Definition.check_iff.mp (Registry.check_iff.mp hcheck _ _ hdefinition)).1
  exact ⟨hcheck, hdefinition, Definition.rulesFor_eq_ok hvariation hpools⟩

theorem run_ne_template_of_faultsWithin {σ α : Type} {allowed : TemplateError → Prop}
    {x : ExceptT GenerationError (StateM σ) α} (h : FaultsWithin allowed x) {state : σ}
    {fault : TemplateError} (hfault : ¬allowed fault) :
    (x.run state).1 ≠ .error (.template fault) := by
  intro hrun
  exact hfault ((h state).of_run_error (Prod.ext hrun rfl) fault rfl)

/-- Counting, expanding and drawing from a pool that a checked template declares, with a value if
its unit declares an argument, never stop for a fault of the template: from any memo, from any state
of the expansions, and with any source, in any state and inside any number of units. -/
theorem run_ne_template_of_declared (hcheck : registry.check = .ok ())
    (hdefinition : registry.get? definition.key = some definition)
    (hvariation : ∀ name, variation = some name → definition.variations.contains name = true)
    (hvalue : definition.argumentName.isSome = true → argument.isSome = true)
    (fault : TemplateError) :
    (∀ memo, ((registry.countUnit definition variation).run memo).1 ≠ .error (.template fault)) ∧
    (∀ limit state, ((registry.examplesOf limit definition variation argument).run state).1 ≠
      .error (.template fault)) ∧
    ∀ (Source : Type) [RandomSource Source] (maxDepth depth : Nat) (state : SampleState Source),
      ((registry.drawUnit maxDepth depth definition variation argument).run state).1 ≠
        .error (.template fault) := by
  have hvalid := valid_of_declared hcheck hdefinition hvariation argument
  have hgiven : ¬definition.LacksValue argument fault := Definition.not_lacksValue hvalue
  refine ⟨fun memo => ?_, fun limit state => ?_, fun Source _ maxDepth depth state => ?_⟩
  · exact run_ne_template_of_faultsWithin (faultless_countUnit hvalid) id
  · exact run_ne_template_of_faultsWithin (faultsWithin_examplesOf hvalid) hgiven
  · exact run_ne_template_of_faultsWithin
      (faultsWithin_drawUnit maxDepth depth definition variation argument hvalid) hgiven

end Registry

/-! A unit with an argument, and with a variation that refers to itself. -/

namespace Refrain

def call : Definition where
  key := ⟨.shared, "call"⟩
  argumentName := some "who"
  rules := [{ contents := [.word "call $who"] }]
  variations := (∅ : Std.ExtTreeMap String (List Rule)).insert "again"
    [{ contents := [.word "again ", .reference {
      target := ⟨.shared, "call"⟩, variation := some "again"
      modifiers := { argumentValue := some "Ada" } }] }]

def phrasebook : Registry := (Registry.ofUnits [call]).toOption.getD .empty

/-- Expanding the variation stops because it refers to itself, and drawing from it because it is
nested too deeply. -/
theorem run_again_ne_template : phrasebook.check = .ok () ∧
    phrasebook.get? call.key = some call ∧ call.variations.contains "again" = true ∧
    ((phrasebook.countUnit call (some "again")).run ∅).1 ≠
      .error (.template (.missingArgument call.key)) ∧
    ((phrasebook.examplesOf 8 call (some "again") (some "Bob")).run {}).1 ≠
      .error (.template (.missingArgument call.key)) ∧
    ((phrasebook.drawUnit 3 0 call (some "again") (some "Bob")).run
      { source := Script.mk [] }).1 ≠ .error (.template (.missingArgument call.key)) := by
  have hcheck : phrasebook.check = .ok () := by rfl
  have hcall : phrasebook.get? call.key = some call := by rfl
  have hagain : call.variations.contains "again" = true := by rfl
  have hvariation (name : String) (hname : some "again" = some name) :
      call.variations.contains name = true := Option.some.inj hname ▸ hagain
  have hvalue (_ : call.argumentName.isSome = true) : (some "Bob").isSome = true := rfl
  obtain ⟨hcount, hexpand, hdraw⟩ := Registry.run_ne_template_of_declared hcheck hcall hvariation
    hvalue (.missingArgument call.key)
  exact ⟨hcheck, hcall, hagain, hcount ∅, hexpand 8 {}, hdraw Script 3 0 _⟩

end Refrain

end Phrasebook
