import Phrasebook.Validation
import Phrasebook.Proofs.Ends

/-! What a template has that passed its check: the faults that the check looks for, each put the
other way round. A reference finds its unit and the pool that it draws from, with a value for the
argument; a choice has branches, a pool has rules, and what is said of a unit is said of all its
rules. -/

namespace Phrasebook

open Std

variable {registry : Registry} {owner : UnitKey}

namespace Content

theorem check_choice_iff {branches : List Rule} {modifiers : Modifiers} :
    (Content.choice branches modifiers).check registry owner = .ok () ↔
      modifiers.check owner = .ok () ∧ branches ≠ [] ∧
        Rule.checkAll registry owner branches = .ok () := by
  unfold Content.check
  rw [seq_eq_ok_iff]
  cases branches with
  | nil => simp [throw_bind]
  | cons branch rest => simp

theorem check_reference_iff {ref : Reference} :
    (Content.reference ref).check registry owner = .ok () ↔
      ref.modifiers.check owner = .ok () ∧ ref.check registry = .ok () := by
  unfold Content.check
  rw [seq_eq_ok_iff]

theorem checkAll_cons_iff {content : Content} {rest : List Content} :
    Content.checkAll registry owner (content :: rest) = .ok () ↔
      content.check registry owner = .ok () ∧ Content.checkAll registry owner rest = .ok () := by
  rw [Content.checkAll, seq_eq_ok_iff]

end Content

namespace Rule

theorem check_eq (rule : Rule) :
    rule.check registry owner = Content.checkAll registry owner rule.contents := by
  cases rule with
  | mk contents slotValue => rw [Rule.check]

theorem checkAll_iff {rules : List Rule} : Rule.checkAll registry owner rules = .ok () ↔
    ∀ rule ∈ rules, Content.checkAll registry owner rule.contents = .ok () := by
  induction rules with
  | nil => simp [Rule.checkAll, pure, Except.pure]
  | cons rule rest ih =>
    rw [Rule.checkAll, seq_eq_ok_iff, ih, List.forall_mem_cons, check_eq]

end Rule

theorem Reference.check_iff {ref : Reference} : ref.check registry = .ok () ↔
    ∃ target, registry.get? ref.target = some target ∧
      (∀ name, ref.variation = some name → target.variations.contains name) ∧
      (target.argumentName.isSome → ref.modifiers.argumentValue.isSome) := by
  unfold Reference.check
  simp only [bind_eq_ok_iff, Registry.resolve_eq_ok_iff]
  refine exists_congr fun target => and_congr_right fun _ => ?_
  have hvalue : (if target.argumentName.isSome && ref.modifiers.argumentValue.isNone then
        throw (.missingArgument target.key)
      else pure () : Except TemplateError Unit) = .ok () ↔
        (target.argumentName.isSome → ref.modifiers.argumentValue.isSome) := by
    rw [guard_eq_ok_iff]
    cases target.argumentName <;> cases ref.modifiers.argumentValue <;> simp
  rcases ref.variation with _ | name
  · exact hvalue.trans ⟨fun h => ⟨nofun, h⟩, fun h => h.2⟩
  · by_cases hcontains : target.variations.contains name = true
    · simp only [hcontains, ite_true]
      exact hvalue.trans
        ⟨fun h => ⟨fun _ hother => Option.some.inj hother ▸ hcontains, h⟩, fun h => h.2⟩
    · simp only [hcontains, throw_bind]
      exact ⟨nofun, fun h => (hcontains (h.1 name rfl)).elim⟩

/-- A pool that a reference draws from has rules if no pool of its unit is empty. -/
theorem Definition.rulesFor_eq_ok {definition : Definition} {variation : Option String}
    (hdeclared : ∀ name, variation = some name → definition.variations.contains name)
    (hpools : ∀ variation ∈ definition.poolNames,
      ∃ rules, definition.rulesFor variation = .ok rules) :
    ∃ rules, definition.rulesFor variation = .ok rules := by
  apply hpools
  unfold poolNames
  cases variation with
  | none => exact List.mem_cons_self
  | some name =>
    have hmem := ExtTreeMap.mem_iff_contains.mpr (hdeclared name rfl)
    have hentry := ExtTreeMap.mem_toList_iff_getElem?_eq_some.mpr
      (ExtTreeMap.getElem?_eq_some_getElem hmem)
    exact List.mem_cons_of_mem _ (List.mem_map.mpr ⟨_, hentry, rfl⟩)

theorem Definition.mem_allRules_of_rulesFor {definition : Definition} {variation : Option String}
    {rules : List Rule} (h : definition.rulesFor variation = .ok rules) {rule : Rule}
    (hrule : rule ∈ rules) : rule ∈ definition.allRules := by
  unfold rulesFor rulesFor.nonempty at h
  unfold allRules
  cases variation with
  | none =>
    dsimp only at h
    split at h
    · contradiction
    · exact List.mem_append_left _ (Except.ok.inj h ▸ hrule)
  | some name =>
    dsimp only at h
    split at h
    · contradiction
    next pool hpool =>
    split at h
    · contradiction
    · obtain rfl := Except.ok.inj h
      have hentry := ExtTreeMap.mem_toList_iff_getElem?_eq_some.mpr hpool
      exact List.mem_append_right _ (List.mem_flatMap.mpr ⟨_, hentry, hrule⟩)

theorem Definition.check_iff {definition : Definition} : definition.check registry = .ok () ↔
    (∀ variation ∈ definition.poolNames, ∃ rules, definition.rulesFor variation = .ok rules) ∧
      ∀ rule ∈ definition.allRules,
        Content.checkAll registry definition.key rule.contents = .ok () := by
  unfold Definition.check
  rw [seq_eq_ok_iff, forM_eq_ok_iff, Rule.checkAll_iff]
  refine and_congr_left fun _ => forall₂_congr fun variation _ => ?_
  cases definition.rulesFor variation <;> simp [discard, Functor.mapConst, Except.map]

/-- A template passes its check if each of its units does. -/
theorem Registry.check_iff : registry.check = .ok () ↔
    ∀ key definition, registry.get? key = some definition → definition.check registry = .ok () := by
  unfold Registry.check
  rw [forM_eq_ok_iff]
  unfold units get?
  constructor
  · intro h key definition hdefinition
    exact h definition (mem_units_of_get? hdefinition)
  · intro h definition hmem
    obtain ⟨⟨key, _⟩, hentry, rfl⟩ := List.mem_map.mp hmem
    exact h key _ (ExtTreeMap.mem_toList_iff_getElem?_eq_some.mp hentry)

theorem Registry.checkAll_of_rulesFor (hcheck : registry.check = .ok ()) {definition : Definition}
    {variation : Option String} {rules : List Rule}
    (hdefinition : registry.get? definition.key = some definition)
    (hrules : definition.rulesFor variation = .ok rules) :
    Rule.checkAll registry definition.key rules = .ok () := by
  have hvalid := (Definition.check_iff.mp (Registry.check_iff.mp hcheck _ _ hdefinition)).2
  exact Rule.checkAll_iff.mpr fun rule hrule =>
    hvalid rule (Definition.mem_allRules_of_rulesFor hrules hrule)

end Phrasebook
