import Phrasebook.Proofs.DrawingSteps
import Phrasebook.Proofs.Draws
import Phrasebook.Proofs.Enumeration

/-! The bindings of a template: which values are put in the place of which markers, and in which texts.
A value comes from a reference, and a text from the rules of the pool that the reference draws from.
Whatever is generated for a unit of the template binds nothing else. -/

namespace Phrasebook

/-! ### The references of a template -/

theorem Content.mem_referencesOfAll {contents : List Content} {ref : Reference} :
    ref ∈ Content.referencesOfAll contents ↔ ∃ content ∈ contents, ref ∈ content.references := by
  induction contents with
  | nil => simp [Content.referencesOfAll]
  | cons content rest ih => simp [Content.referencesOfAll, ih]

theorem Rule.references_eq (rule : Rule) :
    rule.references = Content.referencesOfAll rule.contents := by
  cases rule with
  | mk contents slotValue => simp [Rule.references]

theorem Rule.mem_referencesOfAll {rules : List Rule} {ref : Reference} :
    ref ∈ Rule.referencesOfAll rules ↔
      ∃ rule ∈ rules, ref ∈ Content.referencesOfAll rule.contents := by
  induction rules with
  | nil => simp [Rule.referencesOfAll]
  | cons rule rest ih => simp [Rule.referencesOfAll, Rule.references_eq, ih]

namespace Registry

def references (registry : Registry) : List Reference :=
  registry.units.flatMap (·.references)

/-- Some reference draws from the pool with this value for the argument of its unit. -/
def Passes (registry : Registry) (pool : PoolKey) (value : String) : Prop :=
  ∃ ref ∈ registry.references, ref.pool = pool ∧ ref.modifiers.argumentValue = some value

variable {registry : Registry} {definition : Definition} {variation argument : Option String}

theorem mem_references {rules : List Rule} {rule : Rule} {ref : Reference}
    (hdefinition : registry.get? definition.key = some definition)
    (hrules : definition.rulesFor variation = .ok rules) (hrule : rule ∈ rules)
    (href : ref ∈ Content.referencesOfAll rule.contents) : ref ∈ registry.references :=
  List.mem_flatMap.mpr ⟨definition, mem_units_of_get? hdefinition,
    Rule.mem_referencesOfAll.mpr ⟨rule, Definition.mem_allRules_of_rulesFor hrules hrule, href⟩⟩

/-! ### What may be generated, and what is bound in it -/

/-- The phrase stands for the example if optional contents are there or left out at will. -/
abbrev Derivable (registry : Registry) : Phrase → Example → Prop :=
  registry.Derives fun modifiers present => present = false → modifiers.isOptional = true

/-- Somewhere in the template, a value is put in the place of a marker in the text of an example. The
text of a slot is left out: it becomes a single mention, whatever is bound in it. -/
inductive Binds (registry : Registry) : Marker → String → Example → Prop
  | of_rule {definition : Definition} {variation : Option String} {rules : List Rule} {rule : Rule}
      {name value : String} {drawn variant : Example} :
      registry.get? definition.key = some definition → definition.isSlot = false →
      definition.argumentName = some name → registry.Passes ⟨definition.key, variation⟩ value →
      definition.rulesFor variation = .ok rules → rule ∈ rules →
      registry.Derivable (.contents rule.contents) drawn →
      variant ∈ drawn.caseVariants definition.varyCase →
      Binds registry ⟨name⟩ value variant

/-- The phrase stands in the template: its references are references of the template, and a value for
the argument of a unit comes from one of them. -/
def Holds (registry : Registry) : Phrase → Prop
  | .content content => ∀ ref ∈ content.references, ref ∈ registry.references
  | .contents contents => ∀ content ∈ contents,
      ∀ ref ∈ content.references, ref ∈ registry.references
  | .branches branches => ∀ branch ∈ branches,
      ∀ ref ∈ Content.referencesOfAll branch.contents, ref ∈ registry.references
  | .rules definition argument rules => registry.get? definition.key = some definition ∧
      ∀ rule ∈ rules, ∃ variation all, definition.rulesFor variation = .ok all ∧ rule ∈ all ∧
        ∀ value, argument = some value → registry.Passes ⟨definition.key, variation⟩ value
  | .pool definition variation argument => registry.get? definition.key = some definition ∧
      ∀ value, argument = some value → registry.Passes ⟨definition.key, variation⟩ value

namespace Holds

theorem choice {branches : List Rule} {modifiers : Modifiers}
    (h : registry.Holds (.content (.choice branches modifiers))) :
    registry.Holds (.branches branches) :=
  fun branch hbranch ref href => h ref (Rule.mem_referencesOfAll.mpr ⟨branch, hbranch, href⟩)

theorem reference {ref : Reference} {target : Definition}
    (h : registry.Holds (.content (.reference ref)))
    (htarget : registry.get? ref.target = some target) :
    registry.Holds (.pool target ref.variation ref.modifiers.argumentValue) := by
  refine ⟨get?_key htarget, fun value hvalue => ⟨ref, h ref List.mem_cons_self, ?_, hvalue⟩⟩
  rw [key_of_get? htarget]
  rfl

theorem content {contents : List Content} {content : Content}
    (h : registry.Holds (.contents contents)) (hcontent : content ∈ contents) :
    registry.Holds (.content content) := h content hcontent

theorem tail {content : Content} {rest : List Content}
    (h : registry.Holds (.contents (content :: rest))) : registry.Holds (.contents rest) :=
  fun other hother => h other (List.mem_cons_of_mem _ hother)

theorem branch {branches : List Rule} {branch : Rule} (h : registry.Holds (.branches branches))
    (hbranch : branch ∈ branches) : registry.Holds (.contents branch.contents) :=
  fun content hcontent ref href =>
    h branch hbranch ref (Content.mem_referencesOfAll.mpr ⟨content, hcontent, href⟩)

theorem rule {rules : List Rule} {rule : Rule}
    (h : registry.Holds (.rules definition argument rules)) (hrule : rule ∈ rules) :
    registry.Holds (.contents rule.contents) := by
  obtain ⟨hdefinition, hrules⟩ := h
  obtain ⟨variation, all, hall, hmem, -⟩ := hrules rule hrule
  exact fun content hcontent ref href => mem_references hdefinition hall hmem
    (Content.mem_referencesOfAll.mpr ⟨content, hcontent, href⟩)

theorem rules {rules : List Rule} (h : registry.Holds (.pool definition variation argument))
    (hrules : definition.rulesFor variation = .ok rules) :
    registry.Holds (.rules definition argument rules) :=
  ⟨h.1, fun _ hrule => ⟨variation, rules, hrules, hrule, h.2⟩⟩

/-- A unit of the template, without a value for its argument. -/
theorem unit (hdefinition : registry.get? definition.key = some definition)
    (variation : Option String) : registry.Holds (.pool definition variation none) :=
  ⟨hdefinition, nofun⟩

end Holds

end Registry

/-- The text of a slot becomes a mention. In any other text a value is put in the place of a marker, or
nothing happens. -/
theorem Definition.finish_eq_ok {definition : Definition} {rule : Rule} {argument : Option String}
    {variant finished : Example} (h : definition.finish rule argument variant = .ok finished) :
    (definition.isSlot = true ∧
      ∃ (e : Example) (value : String), finished = e.asMention definition.key.name value) ∨
    (definition.isSlot = false ∧ (finished = variant ∨ ∃ name value,
      definition.argumentName = some name ∧ argument = some value ∧
        finished = Marker.substitute ⟨name⟩ value variant)) := by
  have hmark (bind : String → String) (e : Example) :
      (definition.isSlot = true ∧
        ∃ value, definition.markSlot rule bind e = e.asMention definition.key.name value) ∨
      (definition.isSlot = false ∧ definition.markSlot rule bind e = e) := by
    unfold markSlot
    cases definition.isSlot with
    | true => exact .inl ⟨rfl, _, rfl⟩
    | false => exact .inr ⟨rfl, rfl⟩
  unfold finish at h
  split at h
  · obtain rfl := Except.ok.inj h
    rcases hmark id variant with ⟨hslot, value, heq⟩ | ⟨hslot, heq⟩
    · exact .inl ⟨hslot, _, value, heq⟩
    · exact .inr ⟨hslot, .inl heq⟩
  · contradiction
  · next name value hname =>
    obtain rfl := Except.ok.inj h
    rcases hmark (Marker.replaceIn ⟨name⟩ value) (Marker.substitute ⟨name⟩ value variant) with
      ⟨hslot, value, heq⟩ | ⟨hslot, heq⟩
    · exact .inl ⟨hslot, _, value, heq⟩
    · exact .inr ⟨hslot, .inr ⟨name, value, hname, rfl, heq⟩⟩

namespace Registry

variable {registry : Registry} {e : Example}

/-- A unit that is no slot binds in the texts of its rules what the template binds in them. -/
theorem Holds.binds {definition : Definition} {argument : Option String} {rules : List Rule}
    {rule : Rule} {name value : String} {drawn variant : Example}
    (h : registry.Holds (.rules definition argument rules)) (hslot : definition.isSlot = false)
    (hname : definition.argumentName = some name) (hargument : argument = some value)
    (hrule : rule ∈ rules) (hdrawn : registry.Derivable (.contents rule.contents) drawn)
    (hvariant : variant ∈ drawn.caseVariants definition.varyCase) :
    registry.Binds ⟨name⟩ value variant := by
  obtain ⟨hdefinition, hrules⟩ := h
  obtain ⟨variation, all, hall, hmem, hpasses⟩ := hrules rule hrule
  exact .of_rule hdefinition hslot hname (hpasses value hargument) hall hmem hdrawn hvariant

theorem Expands.derivable {limit : Nat} {table : Synonyms} {phrase : Phrase}
    {all : List Expansion} {expansion : Expansion} (h : registry.Expands limit table phrase all)
    (hmem : expansion ∈ all) :
    registry.Derivable phrase expansion.result := by
  obtain ⟨s, hs⟩ := h.mem_results_iff.mp (mem_distinct.mpr (List.mem_map_of_mem hmem))
  refine hs.mono fun modifiers present hadmits habsent => ?_
  subst habsent
  exact (Bool.and_eq_true_iff.mp (Modifiers.admits_false_iff.mp hadmits).1).1

theorem Draws.derivable {Source : Type} [RandomSource Source] {phrase : Phrase}
    {state state' : SampleState Source} (h : registry.Draws phrase state e state') :
    registry.Derivable phrase e := by
  induction h with
  | word text _ => exact .word text
  | absent hmodifiers hresolves hrun =>
    exact .absent hmodifiers hresolves fun _ => Modifiers.isOptional_of_drawInclusion hrun
  | wordGroup _ hform => exact .wordGroup nofun (Modifiers.mem_forms_of_drawForm hform).1
  | choice _ _ hform ih => exact .choice nofun ih (Modifiers.mem_forms_of_drawForm hform).1
  | reference htarget _ _ hform ih =>
    exact .reference htarget nofun ih (Modifiers.mem_forms_of_drawForm hform).1
  | nil _ => exact .nil
  | cons _ _ ihfirst ihsecond => exact .cons ihfirst ihsecond
  | branch _ hbranch _ ih => exact .branch (List.mem_of_getElem? hbranch) ih
  | rule _ hrule _ hcase hfinish ih =>
    exact .rule (List.mem_of_getElem? hrule) ih (SampleM.mem_caseVariants_of_drawCase hcase).1
      hfinish
  | pool hrules _ ih => exact .pool hrules ih

end Registry

end Phrasebook
