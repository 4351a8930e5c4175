import Phrasebook.Proofs.Batches
import Phrasebook.Proofs.CountOrder
import Phrasebook.Proofs.DrawingSteps
import Phrasebook.Proofs.ExpansionSteps

/-! What a template that passed its check can still fail for. Counting, expanding and drawing look for
a unit, a pool, a branch and a value each time they need one, and the check has found all of them
where the template refers to a unit. Only a unit that is asked for itself has nobody to bring a value
for its argument. -/

namespace Phrasebook

/-- The computation stops for a fault of the template at most if the fault is allowed. -/
abbrev FaultsWithin {σ α : Type} (allowed : TemplateError → Prop)
    (x : ExceptT GenerationError (StateM σ) α) : Prop :=
  FailsWithin (fun error => ∀ fault, error = .template fault → allowed fault) x

abbrev Faultless {σ α : Type} (x : ExceptT GenerationError (StateM σ) α) : Prop :=
  FaultsWithin (fun _ => False) x

namespace Definition

variable {definition : Definition} {rule : Rule} {argument : Option String}

/-- The fault that the unit declares an argument and no value is given for it. -/
def LacksValue (definition : Definition) (argument : Option String) (fault : TemplateError) : Prop :=
  definition.argumentName.isSome = true ∧ argument = none ∧
    fault = .missingArgument definition.key

theorem lacksValue_of_finish {e : Example} {fault : TemplateError}
    (h : definition.finish rule argument e = .error fault) : definition.LacksValue argument fault := by
  unfold finish at h
  split at h
  · contradiction
  · next hname => exact ⟨by rw [hname]; rfl, rfl, (Except.error.inj h).symm⟩
  · contradiction

theorem not_lacksValue (hvalue : definition.argumentName.isSome = true → argument.isSome = true)
    {fault : TemplateError} : ¬definition.LacksValue argument fault := by
  rintro ⟨hname, rfl, -⟩
  simpa using hvalue hname

end Definition

namespace Registry

variable {registry : Registry} {definition : Definition} {variation argument : Option String}

/-- A reference that was checked brings a value if its unit declares an argument. -/
theorem Valid.value {ref : Reference} {target : Definition}
    (h : registry.Valid (.content (.reference ref)))
    (htarget : registry.get? ref.target = some target) :
    target.argumentName.isSome = true → ref.modifiers.argumentValue.isSome = true := by
  obtain ⟨-, owner, hcontent⟩ := h
  obtain ⟨-, href⟩ := Content.check_reference_iff.mp hcontent
  obtain ⟨other, hother, -, hvalue⟩ := Reference.check_iff.mp href
  obtain rfl := Option.some.inj (htarget.symm.trans hother)
  exact hvalue

theorem Valid.exists_rules (h : registry.Valid (.pool definition variation argument)) :
    ∃ rules, definition.rulesFor variation = .ok rules ∧
      ∀ rule ∈ rules, registry.Valid (.contents rule.contents) := by
  obtain ⟨rules, hrules⟩ := h.2.2
  obtain ⟨hcheck, owner, hall⟩ := h.pool hrules
  exact ⟨rules, hrules, fun rule hrule => ⟨hcheck, owner, Rule.checkAll_iff.mp hall rule hrule⟩⟩

/-- For no reference that was checked, what is done stops for a fault of the template. -/
def FaultlessReferences {σ α : Type} (registry : Registry)
    (perform : Reference → ExceptT GenerationError (StateM σ) α) : Prop :=
  ∀ ref, registry.Valid (.content (.reference ref)) → Faultless (perform ref)

/-! ### Expanding -/

section Expanding

variable {limit : Nat}

theorem faultless_modifiers (modifiers : Modifiers) (base : List Expansion) :
    Faultless (modifiers.expand base) :=
  fun _ => Modifiers.expand_ends fun _ _ _ => trivial

section Contents

variable {expandReference : Reference → ExpandM (List Expansion)} {owner : UnitKey}

mutual

theorem faultless_expand (hreference : registry.FaultlessReferences expandReference) :
    (content : Content) → registry.Valid (.content content) →
    Faultless (content.expand expandReference limit owner)
  | .word text, _ => .pure _
  | .wordGroup text modifiers, _ => faultless_modifiers modifiers _
  | .choice branches modifiers, hvalid => by
    obtain ⟨hsome, hbranches⟩ := hvalid.choice
    unfold Content.expand
    rw [if_neg (by simpa using hsome)]
    by_cases hinclude : modifiers.canInclude
    · rw [if_pos hinclude]
      refine (faultless_expandBranches hreference branches hbranches []).bind fun base => ?_
      exact faultless_modifiers modifiers _
    · rw [if_neg hinclude]
      exact faultless_modifiers modifiers _
  | .reference ref, hvalid => hreference ref hvalid

theorem faultless_expandAll (hreference : registry.FaultlessReferences expandReference) :
    (contents : List Content) → registry.Valid (.contents contents) →
    (before : List Expansion) →
    Faultless (Content.expandAll expandReference limit owner before contents)
  | [], _, before => .pure before
  | content :: rest, hvalid, before => by
    unfold Content.expandAll
    refine (faultless_expand hreference content hvalid.cons.1).bind fun all => ?_
    refine FailsWithin.bind (fun _ => Expansion.combine_ends (fun _ => trivial) ?_) fun extended => ?_
    · exact fun _ fault hfault => nomatch hfault
    · by_cases hempty : extended.isEmpty
      · rw [if_pos hempty]
        exact .pure []
      · rw [if_neg hempty]
        exact faultless_expandAll hreference rest hvalid.cons.2 extended

theorem faultless_expandRule (hreference : registry.FaultlessReferences expandReference) :
    (rule : Rule) → registry.Valid (.contents rule.contents) →
    Faultless (rule.expand expandReference limit owner)
  | { contents, .. }, hvalid => faultless_expandAll hreference contents hvalid [{}]

theorem faultless_expandBranches (hreference : registry.FaultlessReferences expandReference) :
    (branches : List Rule) → registry.Valid (.branches branches) →
    (before : List Expansion) →
    Faultless (Rule.expandBranches expandReference limit owner before branches)
  | [], _, before => .pure before
  | branch :: rest, hvalid, before => by
    unfold Rule.expandBranches
    refine (faultless_expandRule hreference branch hvalid.branch.1).bind fun all => ?_
    refine FailsWithin.bind (fun _ => ExpandM.checkLimit_ends (fun _ => trivial) ?_) fun _ => ?_
    · exact fun _ fault hfault => nomatch hfault
    · exact faultless_expandBranches hreference rest hvalid.branch.2 (before ++ all)

end

end Contents

theorem faultsWithin_expandPool {visiting : List PoolKey}
    {expand : (rules : List Rule) → definition.rulesFor variation = .ok rules →
      ⟨definition.key, variation⟩ ∉ visiting → Rule → ExpandM (List Expansion)}
    (hvalid : registry.Valid (.pool definition variation argument))
    (hexpand : ∀ rules hrules hfresh rule, registry.Valid (.contents rule.contents) →
      Faultless (expand rules hrules hfresh rule)) :
    FaultsWithin (definition.LacksValue argument)
      (definition.expandPool limit variation argument visiting expand) := by
  obtain ⟨rules, hrules, hcontents⟩ := hvalid.exists_rules
  intro state
  apply Definition.expandPool_ends
  · exact fun _ _ => trivial
  · exact fun _ fault hfault => nomatch hfault
  · intro _ error herror
    rw [hrules] at herror
    contradiction
  intro others hothers hfresh
  obtain rfl := Except.ok.inj (hrules.symm.trans hothers)
  -- No step of the loop over the rules leaves more found than the limit allows.
  refine (Ends.foldlM (fun _ found _ => found.size ≤ limit) rules ?_ (Nat.zero_le _)).mono
    (fun _ _ _ => trivial) fun _ _ h => h
  intro past rule rest found state₁ hall hsize
  have hrule : rule ∈ rules := hall ▸ List.mem_append_cons_self
  have hrun : Ends (expand rules hothers hfresh rule) state₁ (fun _ _ => True)
      fun error _ => ∀ fault, error = .template fault → definition.LacksValue argument fault :=
    (hexpand rules hothers hfresh rule (hcontents rule hrule) state₁).mono (fun _ _ h => h)
      fun _ _ h fault hfault => (h fault hfault).elim
  apply Definition.expandRule_ends hrun hsize
  · exact fun _ _ _ _ _ _ hroom _ _ => hroom
  · intro _ _ variant error _ _ _ _ hfinish fault hfault
    obtain rfl := GenerationError.template.inj hfault
    exact Definition.lacksValue_of_finish hfinish
  · exact fun _ _ _ _ _ _ _ fault hfault => nomatch hfault

theorem faultless_expandReference (visiting : List PoolKey) (ref : Reference)
    (hvalid : registry.Valid (.content (.reference ref))) :
    Faultless (registry.expandReference limit visiting ref) := by
  -- Each pool that is entered leaves fewer pools that can still be entered.
  induction hroom : registry.freshPools visiting using Nat.strongRecOn
    generalizing visiting ref with
  | ind room ih =>
    subst hroom
    obtain ⟨target, htarget, hpool⟩ := hvalid.reference
    rw [expandReference_of_some htarget]
    by_cases hinclude : ref.modifiers.canInclude
    · rw [if_pos hinclude]
      refine FailsWithin.bind ?_ fun base => faultless_modifiers ref.modifiers base
      refine (faultsWithin_expandPool hpool fun rules hrules hfresh rule hrule => ?_).mono ?_
      · have hless := registry.freshPools_cons_lt htarget hrules hfresh
        exact faultless_expandRule (fun inner hinner => ih _ hless _ inner hinner rfl) rule hrule
      · exact fun error h fault hfault =>
          Definition.not_lacksValue (hvalid.value htarget) (h fault hfault)
    · rw [if_neg hinclude]
      exact faultless_modifiers ref.modifiers []

/-- A pool of the template is expanded without a fault, but for want of a value. -/
theorem faultsWithin_examplesOf (hvalid : registry.Valid (.pool definition variation argument)) :
    FaultsWithin (definition.LacksValue argument)
      (registry.examplesOf limit definition variation argument) := by
  have hexpand : FaultsWithin (definition.LacksValue argument)
      (registry.expandUnit limit definition variation argument) :=
    faultsWithin_expandPool hvalid fun _ _ _ rule hrule =>
      faultless_expandRule (faultless_expandReference [⟨definition.key, variation⟩]) rule hrule
  exact hexpand.bind fun all => .pure _

end Expanding

/-! ### Drawing -/

section Drawing

variable {Source : Type} [RandomSource Source]

section Contents

variable {drawReference : Reference → SampleM Source Example} {owner : UnitKey}

mutual

theorem faultless_draw (hreference : registry.FaultlessReferences drawReference) :
    (content : Content) → registry.Valid (.content content) →
    Faultless (content.draw drawReference owner)
  | .word text, _ => .pure _
  | .wordGroup text modifiers, _ => Modifiers.failsWithin_drawIfIncluded (.pure _)
  | .choice branches modifiers, hvalid => by
    obtain ⟨hsome, hbranches⟩ := hvalid.choice
    refine Modifiers.failsWithin_drawIfIncluded fun state => ends_bind.mpr ?_
    refine SampleM.index_ends fun place source hplace => ?_
    exact faultless_drawNth hreference branches hbranches place
      (hplace (List.length_pos_iff.mpr hsome)) _
  | .reference ref, hvalid => hreference ref hvalid

theorem faultless_drawAll (hreference : registry.FaultlessReferences drawReference) :
    (contents : List Content) → registry.Valid (.contents contents) →
    (before : Example) → Faultless (Content.drawAll drawReference owner before contents)
  | [], _, before => .pure before
  | content :: rest, hvalid, _ =>
    (faultless_draw hreference content hvalid.cons.1).bind fun _ =>
      faultless_drawAll hreference rest hvalid.cons.2 _

theorem faultless_drawRule (hreference : registry.FaultlessReferences drawReference) :
    (rule : Rule) → registry.Valid (.contents rule.contents) →
    Faultless (rule.draw drawReference owner)
  | { contents, .. }, hvalid => faultless_drawAll hreference contents hvalid {}

theorem faultless_drawNth (hreference : registry.FaultlessReferences drawReference) :
    (branches : List Rule) → registry.Valid (.branches branches) →
    (place : Nat) → place < branches.length →
    Faultless (Rule.drawNth drawReference owner branches place)
  | [], _, _, hplace => (Nat.not_lt_zero _ hplace).elim
  | branch :: _, hvalid, 0, _ => faultless_drawRule hreference branch hvalid.branch.1
  | _ :: rest, hvalid, place + 1, hplace =>
    faultless_drawNth hreference rest hvalid.branch.2 place (Nat.lt_of_succ_lt_succ hplace)

end

end Contents

/-- A pool of the template is drawn from without a fault, but for want of a value. -/
theorem faultsWithin_drawUnit (maxDepth depth : Nat) (definition : Definition)
    (variation argument : Option String)
    (hvalid : registry.Valid (.pool definition variation argument)) :
    FaultsWithin (definition.LacksValue argument)
      (registry.drawUnit maxDepth depth definition variation argument : SampleM Source Example) := by
  -- The room below the limit on depth shrinks with each unit that is entered.
  induction hroom : maxDepth - depth generalizing depth definition variation argument with
  | zero =>
    rw [drawUnit, dif_neg (by omega)]
    exact fun _ fault hfault => nomatch hfault
  | succ room ih =>
    have hreference (ref : Reference) (href : registry.Valid (.content (.reference ref))) :
        Faultless (registry.drawReference (registry.drawUnit maxDepth (depth + 1)) ref :
          SampleM Source Example) := by
      obtain ⟨target, htarget, hpool⟩ := href.reference
      unfold drawReference
      rw [htarget]
      refine Modifiers.failsWithin_drawIfIncluded ((ih (depth + 1) _ _ _ hpool (by omega)).mono ?_)
      exact fun error h fault hfault =>
        Definition.not_lacksValue (href.value htarget) (h fault hfault)
    obtain ⟨rules, hrules, hcontents⟩ := hvalid.exists_rules
    rw [drawUnit, dif_pos (by omega), hrules]
    intro state
    refine ends_bind.mpr (SampleM.index_ends fun place source hplace => ?_)
    have hplace := hplace (List.length_pos_iff.mpr (Definition.rulesFor_ne_nil hrules))
    simp only [List.getElem?_eq_getElem hplace]
    have hdraw : FaultsWithin (definition.LacksValue argument)
        (rules[place].draw (registry.drawReference (registry.drawUnit maxDepth (depth + 1)))
          definition.key : SampleM Source Example) :=
      (faultless_drawRule hreference _ (hcontents _ (List.getElem_mem hplace))).mono
        fun error h fault hfault => (h fault hfault).elim
    refine hdraw.bind (fun drawn => ?_) _
    refine FailsWithin.bind (fun _ => SampleM.drawCase_ends fun _ _ _ _ _ _ => trivial)
      fun variant => ?_
    cases hfinish : definition.finish rules[place] argument variant with
    | ok finished => exact fun _ => trivial
    | error fault =>
      intro _ other hother
      obtain rfl := GenerationError.template.inj hother
      exact Definition.lacksValue_of_finish hfinish

end Drawing

/-! ### Intents -/

section Batches

variable {options : Options} {possibilities : Possibilities} {fault : TemplateError}
  (hvalid : registry.Valid (.pool definition none none))
include hvalid

theorem lacksValue_of_sampleBatch {requested : Nat} {seed : UInt64}
    (h : registry.sampleBatch options definition requested possibilities seed =
      .error (.template fault)) : definition.LacksValue none fault := by
  unfold sampleBatch at h
  rcases bind_eq_error_iff.mp h with hrun | ⟨_, -, h⟩
  · obtain ⟨attempt, hdraw⟩ := SampleRun.exists_draw_error {} hrun
    unfold drawAttempt drawOnce at hdraw
    split at hdraw
    · next error state hrun =>
      obtain rfl := Except.error.inj hdraw
      exact (faultsWithin_drawUnit _ 0 definition none none hvalid _).of_run_error hrun fault rfl
    · contradiction
  · contradiction

theorem lacksValue_of_uniqueExamples {operation : Operation}
    (h : registry.uniqueExamples options definition possibilities operation =
      .error (.template fault)) : definition.LacksValue none fault := by
  unfold uniqueExamples at h
  dsimp only at h
  split at h
  · exact nomatch Except.error.inj h
  split at h
  · next error state hrun =>
    obtain rfl := Except.error.inj h
    exact (faultsWithin_examplesOf hvalid _).of_run_error hrun fault rfl
  · contradiction

theorem lacksValue_of_batchOf {requested : Option Nat} {seed : UInt64}
    (h : registry.batchOf options definition requested seed possibilities =
      .error (.template fault)) : definition.LacksValue none fault := by
  unfold batchOf at h
  split at h
  · exact lacksValue_of_sampleBatch hvalid h
  · rcases bind_eq_error_iff.mp h with hfound | ⟨_, -, h⟩
    · exact lacksValue_of_uniqueExamples hvalid hfound
    · contradiction
  · rcases bind_eq_error_iff.mp h with hfound | ⟨_, -, h⟩
    · exact lacksValue_of_uniqueExamples hvalid hfound
    · contradiction

end Batches

theorem exists_partialBatch_of_partialWarnings {strict : Bool} {generated : Nat}
    {error : GenerationError} (h : definition.partialWarnings strict generated = .error error) :
    ∃ requested, error = .partialBatch definition.key requested generated := by
  unfold Definition.partialWarnings at h
  split at h
  · contradiction
  next requested _ =>
  split at h
  · contradiction
  split at h
  · exact ⟨requested, (Except.error.inj h).symm⟩
  · contradiction

/-- An outcome is refused at most because too few examples were made. -/
theorem exists_partialBatch_of_outcome {options : Options} {batch : Batch} {error : GenerationError}
    (h : definition.outcome options batch = .error error) :
    ∃ requested generated, error = .partialBatch definition.key requested generated := by
  unfold Definition.outcome at h
  rcases bind_eq_error_iff.mp h with hpartial | ⟨_, -, h⟩
  · obtain ⟨requested, herror⟩ := exists_partialBatch_of_partialWarnings hpartial
    exact ⟨requested, _, herror⟩
  · contradiction

/-- A run over a template that passed its check, by whatever schedule, stops for a fault of the
template only at an intent that declares an argument, for which nobody gives a value. -/
theorem missingArgument_of_generateBy {options : Options} {schedule : Schedule}
    {fault : TemplateError} (hcheck : registry.check = .ok ())
    (hschedule : registry.Allows options schedule)
    (h : registry.generateBy options schedule = .error (.template fault)) :
    ∃ intent ∈ registry.intents, intent.argumentName.isSome = true ∧
      fault = .missingArgument intent.key := by
  rcases generateBy_eq_error hschedule h with
    ⟨_, -, h⟩ | ⟨_, hfault, -⟩ | ⟨intent, hmem, turn, -, hrun⟩
  · exact nomatch h
  · rw [hcheck] at hfault
    contradiction
  have hdefinition := get?_of_mem_intents hmem
  have hpools := (Definition.check_iff.mp (Registry.check_iff.mp hcheck _ _ hdefinition)).1
  obtain ⟨rules, hrules⟩ : ∃ rules, intent.rulesFor none = .ok rules :=
    Definition.rulesFor_eq_ok nofun hpools
  -- The count is found, so that the fault is one of the batch.
  obtain ⟨possibilities, hcount⟩ :=
    (hschedule.counted_take turn).exists_count hcheck hdefinition hrules
  rw [run_generateIntent, hcount] at hrun
  change registry.outcomeOf options intent possibilities = .error (.template fault) at hrun
  unfold outcomeOf at hrun
  rcases bind_eq_error_iff.mp hrun with hbatch | ⟨batch, -, houtcome⟩
  · obtain ⟨hname, -, hfault⟩ :=
      lacksValue_of_batchOf ⟨hcheck, hdefinition, rules, hrules⟩ hbatch
    exact ⟨intent, hmem, hname, hfault⟩
  · obtain ⟨_, _, hpartial⟩ := exists_partialBatch_of_outcome houtcome
    exact nomatch hpartial

end Registry

/-! Templates with intents that declare an argument. No content refers to them, so that the check never
asks for a value; the run does. -/

namespace Salutation

def greet : Definition where
  key := ⟨.intent, "greet"⟩
  argumentName := some "name"
  rules := [{ contents := [.word "hello"] }]
  requestedCount := some 1

def phrasebook : Registry := (Registry.ofUnits [greet]).toOption.getD .empty

def options : Options := { samplingDivisor := 1 }

theorem check_phrasebook : phrasebook.check = .ok () := by rfl

theorem generate_phrasebook :
    phrasebook.generate options = .error (.template (.missingArgument greet.key)) :=
  eq_error_of_match (by decide +kernel)

/-- Template and options pass their checks, and the run stops for a fault of the template. -/
theorem template_error_of_check : phrasebook.check = .ok () ∧ options.check = .ok () ∧
    ∃ fault, phrasebook.generate options = .error (.template fault) :=
  ⟨check_phrasebook, by rfl, _, generate_phrasebook⟩

def part : Definition where
  key := ⟨.intent, "part"⟩
  argumentName := some "name"
  rules := [{ contents := [.word "goodbye"] }]
  requestedCount := some 1

def both : Registry := (Registry.ofUnits [greet, part]).toOption.getD .empty

/-- The intent that is last by its name is done first. -/
def schedule : Schedule := ⟨[part, greet], [part, greet]⟩

theorem allows_schedule : both.Allows options schedule :=
  ⟨.swap _ _ _, .swap _ _ _, nofun⟩

theorem generateBy_both :
    both.generateBy options schedule = .error (.template (.missingArgument part.key)) :=
  eq_error_of_match (by decide +kernel)

/-- Of the two intents, the one that is done first is told. -/
theorem missingArgument_of_generateBy_both : ∃ intent ∈ both.intents,
    intent.argumentName.isSome = true ∧
      TemplateError.missingArgument part.key = .missingArgument intent.key :=
  Registry.missingArgument_of_generateBy (by rfl) allows_schedule generateBy_both

end Salutation

end Phrasebook
