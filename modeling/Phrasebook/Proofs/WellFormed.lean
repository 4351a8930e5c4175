import Mathlib.Data.List.Basic
import Phrasebook.Proofs.Validity

/-! What the check of a template accepts, and what it reports. A template is well formed if every pool
of every unit has rules, and every content in them, at any depth of choices, keeps to its percentage,
its branches, and the unit that it refers to. The check accepts just the well-formed templates, and
what it reports of another one is really there. -/

namespace Phrasebook

open Std

/-- The content stands in the rule, at any depth of choices. -/
inductive Rule.Has : Rule → Content → Prop
  | own {rule : Rule} {content : Content} : content ∈ rule.contents → rule.Has content
  | inside {rule : Rule} {branches : List Rule} {modifiers : Modifiers} {branch : Rule}
      {content : Content} : .choice branches modifiers ∈ rule.contents → branch ∈ branches →
      branch.Has content → rule.Has content

namespace Definition

/-- The rules of a pool, if the unit has it; there may be none. -/
def pool? (definition : Definition) : Option String → Option (List Rule)
  | none => some definition.rules
  | some variation => definition.variations[variation]?

/-- The content stands in a rule of the unit, in any pool and at any depth of choices. -/
def Has (definition : Definition) (content : Content) : Prop :=
  ∃ variation rules, definition.pool? variation = some rules ∧ ∃ rule ∈ rules, rule.Has content

variable {definition : Definition}

theorem mem_poolNames_iff {variation : Option String} :
    variation ∈ definition.poolNames ↔ ∃ rules, definition.pool? variation = some rules := by
  cases variation with
  | none => simp [poolNames, pool?]
  | some name => simp [poolNames, pool?, ExtTreeMap.mem_toList_iff_getElem?_eq_some]

theorem mem_allRules_iff {rule : Rule} : rule ∈ definition.allRules ↔
    ∃ variation rules, definition.pool? variation = some rules ∧ rule ∈ rules := by
  simp only [allRules, List.mem_append, List.mem_flatMap, Prod.exists,
    ExtTreeMap.mem_toList_iff_getElem?_eq_some, Option.exists]
  simp [pool?]

/-- Of a pool that the unit has, only that it is empty is a fault. -/
theorem rulesFor_eq {variation : Option String} {rules : List Rule}
    (h : definition.pool? variation = some rules) : definition.rulesFor variation =
      if rules.isEmpty then .error (.missingRules definition.key variation) else .ok rules := by
  cases variation with
  | none =>
    obtain rfl := Option.some.inj h
    rfl
  | some name =>
    unfold pool? at h
    dsimp only at h
    rw [rulesFor, h]
    rfl

end Definition

section Contents

variable {registry : Registry} {owner : UnitKey} {fault : TemplateError}

/-- What is asked of a content, apart from the contents inside it. -/
structure Content.WellFormed (registry : Registry) (content : Content) : Prop where
  percent_le : ∀ modifiers, content.modifiers? = some modifiers → modifiers.inclusionPercent ≤ 100
  branches_ne_nil : ∀ branches modifiers, content = .choice branches modifiers → branches ≠ []
  /-- A reference finds its unit, which has the variation that is named and is given a value if it
  declares an argument. -/
  reference : ∀ ref, content = .reference ref → ∃ target, registry.get? ref.target = some target ∧
    (∀ variation, ref.variation = some variation → variation ∈ target.variations) ∧
    (target.argumentName.isSome → ref.modifiers.argumentValue.isSome)

/-- The fault is one of this content, which stands in a rule of the owner. -/
inductive Content.AtFault (registry : Registry) (owner : UnitKey) : Content → TemplateError → Prop
  | percent {content : Content} {modifiers : Modifiers} : content.modifiers? = some modifiers →
      100 < modifiers.inclusionPercent →
      AtFault registry owner content (.invalidPercent owner modifiers.inclusionPercent)
  | branches {modifiers : Modifiers} :
      AtFault registry owner (.choice [] modifiers) (.emptyChoice owner)
  | target {ref : Reference} : registry.get? ref.target = none →
      AtFault registry owner (.reference ref) (.undefinedUnit ref.target)
  | variation {ref : Reference} {target : Definition} {variation : String} :
      registry.get? ref.target = some target → ref.variation = some variation →
      variation ∉ target.variations →
      AtFault registry owner (.reference ref) (.unknownVariation ref.target variation)
  | argument {ref : Reference} {target : Definition} : registry.get? ref.target = some target →
      target.argumentName.isSome → ref.modifiers.argumentValue = none →
      AtFault registry owner (.reference ref) (.missingArgument ref.target)

theorem Content.AtFault.not_wellFormed {content : Content}
    (h : content.AtFault registry owner fault) : ¬content.WellFormed registry := by
  intro hformed
  cases h with
  | percent hmodifiers habove =>
    exact UInt8.not_lt.mpr (hformed.percent_le _ hmodifiers) habove
  | branches => exact hformed.branches_ne_nil _ _ rfl rfl
  | target hnone =>
    obtain ⟨target, htarget, -⟩ := hformed.reference _ rfl
    exact nomatch hnone.symm.trans htarget
  | variation htarget hvariation hunknown =>
    obtain ⟨other, hother, hdeclared, -⟩ := hformed.reference _ rfl
    obtain rfl := Option.some.inj (htarget.symm.trans hother)
    exact hunknown (hdeclared _ hvariation)
  | argument htarget hargument hnone =>
    obtain ⟨other, hother, -, hvalue⟩ := hformed.reference _ rfl
    obtain rfl := Option.some.inj (htarget.symm.trans hother)
    rw [hnone] at hvalue
    exact nomatch hvalue hargument

/-! ### What is accepted -/

theorem Modifiers.check_iff {modifiers : Modifiers} :
    modifiers.check owner = .ok () ↔ modifiers.inclusionPercent ≤ 100 := by
  unfold Modifiers.check
  split
  · next habove => simpa using habove
  · next hfits => simpa using hfits

theorem Content.check_modifiers {content : Content} {modifiers : Modifiers}
    (h : content.check registry owner = .ok ()) (hmodifiers : content.modifiers? = some modifiers) :
    modifiers.check owner = .ok () := by
  cases content with
  | word text => contradiction
  | wordGroup text other =>
    obtain rfl := Option.some.inj hmodifiers
    exact h
  | choice branches other =>
    obtain rfl := Option.some.inj hmodifiers
    exact (Content.check_choice_iff.mp h).1
  | reference ref =>
    obtain rfl := Option.some.inj hmodifiers
    exact (Content.check_reference_iff.mp h).1

theorem Content.wellFormed_of_check {content : Content}
    (h : content.check registry owner = .ok ()) : content.WellFormed registry where
  percent_le _ hmodifiers := Modifiers.check_iff.mp (Content.check_modifiers h hmodifiers)
  branches_ne_nil branches modifiers hchoice := by
    subst hchoice
    exact (Content.check_choice_iff.mp h).2.1
  reference ref href := by
    subst href
    exact Reference.check_iff.mp (Content.check_reference_iff.mp h).2

theorem Content.checkAll_iff {contents : List Content} :
    Content.checkAll registry owner contents = .ok () ↔
      ∀ content ∈ contents, content.check registry owner = .ok () := by
  induction contents with
  | nil => simp [Content.checkAll, pure, Except.pure]
  | cons content rest ih => rw [Content.checkAll_cons_iff, ih, List.forall_mem_cons]

/-- Where the contents of a rule pass their check, all contents inside them do. -/
theorem Rule.Has.check {rule : Rule} {content : Content} (h : rule.Has content)
    (hrule : Content.checkAll registry owner rule.contents = .ok ()) :
    content.check registry owner = .ok () := by
  induction h with
  | own hmem => exact Content.checkAll_iff.mp hrule _ hmem
  | inside hmem hbranch _ ih =>
    obtain ⟨-, -, hbranches⟩ := Content.check_choice_iff.mp (Content.checkAll_iff.mp hrule _ hmem)
    exact ih (Rule.checkAll_iff.mp hbranches _ hbranch)

/-! ### What is reported -/

theorem Modifiers.atFault_of_check {content : Content} {modifiers : Modifiers}
    (hcontent : content.modifiers? = some modifiers) (h : modifiers.check owner = .error fault) :
    content.AtFault registry owner fault := by
  unfold Modifiers.check at h
  split at h
  · next habove =>
    obtain rfl := Except.error.inj h
    exact .percent hcontent habove
  · contradiction

theorem Reference.atFault_of_check {ref : Reference} (h : ref.check registry = .error fault) :
    (Content.reference ref).AtFault registry owner fault := by
  unfold Reference.check at h
  rcases bind_eq_error_iff.mp h with hnone | ⟨target, htarget, h⟩
  · unfold Registry.resolve at hnone
    split at hnone
    · contradiction
    · next hnone' =>
      obtain rfl := Except.error.inj hnone
      exact .target hnone'
  have htarget := Registry.resolve_eq_ok_iff.mp htarget
  rw [Registry.key_of_get? htarget] at h
  have hvalue : (if target.argumentName.isSome && ref.modifiers.argumentValue.isNone then
        throw (.missingArgument ref.target)
      else pure () : Except TemplateError Unit) = .error fault →
      (Content.reference ref).AtFault registry owner fault := by
    intro hthrown
    split at hthrown
    · next hlacks =>
      obtain rfl := Except.error.inj hthrown
      rw [Bool.and_eq_true, Option.isNone_iff_eq_none] at hlacks
      exact .argument htarget hlacks.1 hlacks.2
    · contradiction
  rcases hname : ref.variation with _ | variation
  · rw [hname] at h
    exact hvalue h
  rw [hname] at h
  by_cases hcontains : target.variations.contains variation = true
  · simp only [hcontains, ite_true] at h
    exact hvalue h
  · simp only [hcontains, throw_bind] at h
    obtain rfl := Except.error.inj h
    exact .variation htarget hname fun hmem => hcontains (ExtTreeMap.mem_iff_contains.mp hmem)

mutual

/-- A content that fails its check is at fault, or one inside it is. -/
theorem Content.exists_atFault {rule : Rule} : (content : Content) → content ∈ rule.contents →
    content.check registry owner = .error fault →
    ∃ inner, rule.Has inner ∧ inner.AtFault registry owner fault
  | .word _, _, h => nomatch h
  | .wordGroup _ _, hmem, h => ⟨_, .own hmem, Modifiers.atFault_of_check rfl h⟩
  | .choice branches _, hmem, h => by
    unfold Content.check at h
    rcases bind_eq_error_iff.mp h with h | ⟨_, -, h⟩
    · exact ⟨_, .own hmem, Modifiers.atFault_of_check rfl h⟩
    split at h
    · next hempty =>
      obtain rfl := Except.error.inj h
      obtain rfl := List.isEmpty_iff.mp hempty
      exact ⟨_, .own hmem, .branches⟩
    · obtain ⟨inside, hinside, inner, hinner, hfault⟩ := Rule.exists_atFaultAll branches h
      exact ⟨inner, .inside hmem hinside hinner, hfault⟩
  | .reference ref, hmem, h => by
    unfold Content.check at h
    rcases bind_eq_error_iff.mp h with h | ⟨_, -, h⟩
    · exact ⟨_, .own hmem, Modifiers.atFault_of_check rfl h⟩
    · exact ⟨_, .own hmem, Reference.atFault_of_check h⟩

theorem Content.exists_atFaultAll {rule : Rule} : (contents : List Content) →
    contents ⊆ rule.contents → Content.checkAll registry owner contents = .error fault →
    ∃ inner, rule.Has inner ∧ inner.AtFault registry owner fault
  | [], _, h => nomatch h
  | content :: rest, hsubset, h => by
    unfold Content.checkAll at h
    rcases bind_eq_error_iff.mp h with h | ⟨_, -, h⟩
    · exact Content.exists_atFault content (hsubset List.mem_cons_self) h
    · exact Content.exists_atFaultAll rest (fun _ hmem => hsubset (List.mem_cons_of_mem _ hmem)) h

theorem Rule.exists_atFault : (rule : Rule) → rule.check registry owner = .error fault →
    ∃ inner, rule.Has inner ∧ inner.AtFault registry owner fault
  | { contents, .. }, h => by
    unfold Rule.check at h
    exact Content.exists_atFaultAll contents (List.Subset.refl _) h

theorem Rule.exists_atFaultAll : (rules : List Rule) →
    Rule.checkAll registry owner rules = .error fault →
    ∃ rule ∈ rules, ∃ inner, rule.Has inner ∧ inner.AtFault registry owner fault
  | [], h => nomatch h
  | rule :: rest, h => by
    unfold Rule.checkAll at h
    rcases bind_eq_error_iff.mp h with h | ⟨_, -, h⟩
    · exact ⟨rule, List.mem_cons_self, Rule.exists_atFault rule h⟩
    · obtain ⟨other, hother, hinner⟩ := Rule.exists_atFaultAll rest h
      exact ⟨other, List.mem_cons_of_mem _ hother, hinner⟩

end

end Contents

/-- Each pool has rules, and each content in them is as it has to be. -/
structure Definition.WellFormed (registry : Registry) (definition : Definition) : Prop where
  rules_ne_nil : ∀ variation rules, definition.pool? variation = some rules → rules ≠ []
  contents : ∀ content, definition.Has content → content.WellFormed registry

namespace Registry

variable {registry : Registry} {fault : TemplateError}

def WellFormed (registry : Registry) : Prop :=
  ∀ definition ∈ registry.units, definition.WellFormed registry

/-- The template has this fault, in a pool of one of its units or in a content there. -/
inductive Violates (registry : Registry) : TemplateError → Prop
  | pool {definition : Definition} {variation : Option String} : definition ∈ registry.units →
      definition.pool? variation = some [] →
      Violates registry (.missingRules definition.key variation)
  | content {definition : Definition} {content : Content} {fault : TemplateError} :
      definition ∈ registry.units → definition.Has content →
      content.AtFault registry definition.key fault → Violates registry fault

theorem Violates.not_wellFormed (h : registry.Violates fault) : ¬registry.WellFormed := by
  intro hformed
  cases h with
  | pool hdefinition hempty => exact (hformed _ hdefinition).rules_ne_nil _ _ hempty rfl
  | content hdefinition hcontent hfault =>
    exact hfault.not_wellFormed ((hformed _ hdefinition).contents _ hcontent)

theorem wellFormed_of_check (h : registry.check = .ok ()) : registry.WellFormed := by
  intro definition hdefinition
  obtain ⟨hpools, hrules⟩ :=
    Definition.check_iff.mp (check_iff.mp h _ _ (mem_units_iff.mp hdefinition))
  refine ⟨fun variation rules hpool hempty => ?_, fun content hcontent => ?_⟩
  · obtain ⟨_, hfound⟩ := hpools variation (Definition.mem_poolNames_iff.mpr ⟨rules, hpool⟩)
    rw [Definition.rulesFor_eq hpool, hempty] at hfound
    contradiction
  · obtain ⟨variation, rules, hpool, rule, hrule, hhas⟩ := hcontent
    have hmem := Definition.mem_allRules_iff.mpr ⟨variation, rules, hpool, hrule⟩
    exact Content.wellFormed_of_check (hhas.check (hrules rule hmem))

theorem violates_of_check_unit {definition : Definition} (hdefinition : definition ∈ registry.units)
    (h : definition.check registry = .error fault) : registry.Violates fault := by
  unfold Definition.check at h
  rcases bind_eq_error_iff.mp h with hpools | ⟨_, -, hrules⟩
  · obtain ⟨variation, hname, hfound⟩ := exists_of_forM_eq_error hpools
    obtain ⟨rules, hpool⟩ := Definition.mem_poolNames_iff.mp hname
    rw [Definition.rulesFor_eq hpool] at hfound
    split at hfound
    · next hempty =>
      obtain rfl := Except.error.inj hfound
      exact .pool hdefinition (List.isEmpty_iff.mp hempty ▸ hpool)
    · contradiction
  · obtain ⟨rule, hrule, inner, hinner, hfault⟩ := Rule.exists_atFaultAll _ hrules
    obtain ⟨variation, rules, hpool, hmem⟩ := Definition.mem_allRules_iff.mp hrule
    exact .content hdefinition ⟨variation, rules, hpool, rule, hmem, hinner⟩ hfault

/-- The check accepts just the templates that are well formed, and a fault that it reports is one that
the template has, of the unit that it names. -/
theorem check_eq_ok_iff_wellFormed (registry : Registry) :
    (registry.check = .ok () ↔ registry.WellFormed) ∧
      ∀ fault, registry.check = .error fault → registry.Violates fault := by
  have hviolates (fault : TemplateError) (h : registry.check = .error fault) :
      registry.Violates fault := by
    obtain ⟨definition, hdefinition, hfault⟩ := exists_of_forM_eq_error h
    exact violates_of_check_unit hdefinition hfault
  refine ⟨⟨wellFormed_of_check, fun hformed => ?_⟩, hviolates⟩
  cases hcheck : registry.check with
  | ok _ => rfl
  | error fault => exact ((hviolates fault hcheck).not_wellFormed hformed).elim

end Registry

/-! A city with districts, which a call asks for. -/

namespace Journey

def city : Definition :=
  { key := ⟨.slot, "city"⟩, rules := [{ contents := [.word "Paris"] }] : Definition }.withVariation
    "district" [{ contents := [.word "Montmartre"] }]

/-- A call to a place in the city, with further branches of the choice. -/
def call (variation : String) (branches : List Rule) : Definition where
  key := ⟨.intent, "call"⟩
  rules := [{ contents := [.word "a cab to ", .choice ({ contents :=
    [.reference { target := city.key, variation := some variation }] } :: branches) {}] }]

def phrasebook (variation : String) (branches : List Rule) : Registry :=
  (Registry.ofUnits [call variation branches, city]).toOption.getD .empty

/-- A reference inside a choice finds its variation; a variation that the city does not have, and an
empty choice two choices down, are found and are there. -/
theorem check_eq_ok_iff_wellFormed_phrasebook :
    (phrasebook "district" []).WellFormed ∧
    ¬(phrasebook "suburb" []).WellFormed ∧
    (phrasebook "suburb" []).Violates (.unknownVariation city.key "suburb") ∧
    (phrasebook "district" [{ contents := [.choice [] {}] }]).Violates
      (.emptyChoice ⟨.intent, "call"⟩) := by
  obtain ⟨hdistrict, -⟩ := Registry.check_eq_ok_iff_wellFormed (phrasebook "district" [])
  obtain ⟨hsuburb, hunknown⟩ := Registry.check_eq_ok_iff_wellFormed (phrasebook "suburb" [])
  obtain ⟨-, hempty⟩ := Registry.check_eq_ok_iff_wellFormed
    (phrasebook "district" [{ contents := [.choice [] {}] }])
  have hreported : (phrasebook "suburb" []).check =
      .error (.unknownVariation city.key "suburb") := by rfl
  refine ⟨hdistrict.mp (by rfl), fun hformed => ?_, hunknown _ hreported,
    hempty _ (by rfl)⟩
  exact nomatch hreported.symm.trans (hsuburb.mpr hformed)

end Journey

end Phrasebook
