import Phrasebook.Expansion
import Phrasebook.Proofs.Example

/-! Which examples a template stands for, said without lists, caches, limits or random choices. A
phrase is a part of a template that stands for examples, and a derivation builds one of them by the
rules of the language: contents stand one behind the other, a choice is one of its branches, a
reference is one rule of the pool that it draws from. Which contents may be there and which may be
left out is a parameter, so that the generators that list all examples and those that draw one share
the rules. -/

namespace Phrasebook

/-- A part of a template that stands for examples. -/
inductive Phrase where
  | content (content : Content)
  /-- Contents in order, as in a rule. -/
  | contents (contents : List Content)
  /-- The branches of a choice. -/
  | branches (branches : List Rule)
  /-- Rules of a unit, finished with a value for its argument. -/
  | rules (definition : Definition) (argument : Option String) (rules : List Rule)
  /-- A pool of a unit, with a value for the argument of the unit. -/
  | pool (definition : Definition) (variation argument : Option String)

namespace Modifiers

/-- The forms in which a text can be brought: in either case if the case varies, with the space that
goes before it. -/
def forms (modifiers : Modifiers) (e : Example) : List Example :=
  (e.caseVariants modifiers.varyCase).map modifiers.addSpace

/-- Whether a content may be there, or be left out, if the assignment `s` decides the named keys. A
named key has to be decided as its percentage allows, and the decision says whether the content is
there. -/
def Admits (s : String → Bool) (modifiers : Modifiers) (present : Bool) : Prop :=
  match modifiers.correlationKey with
  | some key =>
    s key ∈ decisionOutcomes modifiers.inclusionPercent ∧ present = modifiers.includedBy (s key)
  | none => if present then modifiers.canInclude else modifiers.canExclude

end Modifiers

/-- A unit that is found is found under its own key. -/
theorem Registry.get?_key {registry : Registry} {key : UnitKey} {definition : Definition}
    (h : registry.get? key = some definition) : registry.get? definition.key = some definition :=
  key_of_get? h ▸ h

/-- A content finds the unit that it refers to, if it refers to one. -/
def Registry.Resolves (registry : Registry) : Content → Prop
  | .reference ref => (registry.get? ref.target).isSome
  | _ => True

/-- Building an example from a phrase; `admits` tells whether a content with some modifiers may be
there or be left out. -/
inductive Registry.Derives (registry : Registry) (admits : Modifiers → Bool → Prop) :
    Phrase → Example → Prop
  | word (text : String) : Derives registry admits (.content (.word text)) (.ofText text)
  | wordGroup {text : String} {modifiers : Modifiers} {form : Example} :
      admits modifiers true → form ∈ modifiers.forms (.ofText text) →
      Derives registry admits (.content (.wordGroup text modifiers)) form
  | choice {branches : List Rule} {modifiers : Modifiers} {e form : Example} :
      admits modifiers true → Derives registry admits (.branches branches) e →
      form ∈ modifiers.forms e →
      Derives registry admits (.content (.choice branches modifiers)) form
  | reference {ref : Reference} {target : Definition} {e form : Example} :
      registry.get? ref.target = some target → admits ref.modifiers true →
      Derives registry admits (.pool target ref.variation ref.modifiers.argumentValue) e →
      form ∈ ref.modifiers.forms e →
      Derives registry admits (.content (.reference ref)) form
  | absent {content : Content} {modifiers : Modifiers} :
      content.modifiers? = some modifiers → registry.Resolves content → admits modifiers false →
      Derives registry admits (.content content) {}
  | nil : Derives registry admits (.contents []) {}
  | cons {content : Content} {rest : List Content} {first second : Example} :
      Derives registry admits (.content content) first →
      Derives registry admits (.contents rest) second →
      Derives registry admits (.contents (content :: rest)) (first.append second)
  | branch {branches : List Rule} {branch : Rule} {e : Example} :
      branch ∈ branches → Derives registry admits (.contents branch.contents) e →
      Derives registry admits (.branches branches) e
  | rule {definition : Definition} {argument : Option String} {rules : List Rule} {rule : Rule}
      {e variant finished : Example} :
      rule ∈ rules → Derives registry admits (.contents rule.contents) e →
      variant ∈ e.caseVariants definition.varyCase →
      definition.finish rule argument variant = .ok finished →
      Derives registry admits (.rules definition argument rules) finished
  | pool {definition : Definition} {variation argument : Option String} {rules : List Rule}
      {e : Example} :
      definition.rulesFor variation = .ok rules →
      Derives registry admits (.rules definition argument rules) e →
      Derives registry admits (.pool definition variation argument) e

namespace Registry.Derives

variable {registry : Registry} {admits admits' : Modifiers → Bool → Prop} {e : Example}

/-- What is derived stays derived if more contents may be there or be left out. -/
theorem mono {phrase : Phrase} (h : registry.Derives admits phrase e)
    (hadmits : ∀ modifiers present, admits modifiers present → admits' modifiers present) :
    registry.Derives admits' phrase e := by
  induction h with
  | word text => exact .word text
  | wordGroup hpresent hform => exact .wordGroup (hadmits _ _ hpresent) hform
  | choice hpresent _ hform ih => exact .choice (hadmits _ _ hpresent) ih hform
  | reference htarget hpresent _ hform ih =>
    exact .reference htarget (hadmits _ _ hpresent) ih hform
  | absent hmodifiers hresolves habsent =>
    exact .absent hmodifiers hresolves (hadmits _ _ habsent)
  | nil => exact .nil
  | cons _ _ ihfirst ihsecond => exact .cons ihfirst ihsecond
  | branch hmem _ ih => exact .branch hmem ih
  | rule hmem _ hvariant hfinish ih => exact .rule hmem ih hvariant hfinish
  | pool hrules _ ih => exact .pool hrules ih

theorem word_iff {text : String} :
    registry.Derives admits (.content (.word text)) e ↔ e = .ofText text := by
  constructor
  · intro h
    cases h with
    | word => rfl
    | absent hmodifiers => cases hmodifiers
  · rintro rfl
    exact .word text

theorem wordGroup_iff {text : String} {modifiers : Modifiers} :
    registry.Derives admits (.content (.wordGroup text modifiers)) e ↔
      (admits modifiers true ∧ e ∈ modifiers.forms (.ofText text)) ∨
        (admits modifiers false ∧ e = {}) := by
  constructor
  · intro h
    cases h with
    | wordGroup hpresent hform => exact .inl ⟨hpresent, hform⟩
    | absent hmodifiers _ habsent => exact .inr ⟨Option.some.inj hmodifiers ▸ habsent, rfl⟩
  · rintro (⟨hpresent, hform⟩ | ⟨habsent, rfl⟩)
    · exact .wordGroup hpresent hform
    · exact .absent rfl trivial habsent

theorem choice_iff {branches : List Rule} {modifiers : Modifiers} :
    registry.Derives admits (.content (.choice branches modifiers)) e ↔
      (admits modifiers true ∧
        ∃ a, registry.Derives admits (.branches branches) a ∧ e ∈ modifiers.forms a) ∨
        (admits modifiers false ∧ e = {}) := by
  constructor
  · intro h
    cases h with
    | choice hpresent hbranches hform => exact .inl ⟨hpresent, _, hbranches, hform⟩
    | absent hmodifiers _ habsent => exact .inr ⟨Option.some.inj hmodifiers ▸ habsent, rfl⟩
  · rintro (⟨hpresent, a, hbranches, hform⟩ | ⟨habsent, rfl⟩)
    · exact .choice hpresent hbranches hform
    · exact .absent rfl trivial habsent

theorem reference_iff {ref : Reference} {target : Definition}
    (htarget : registry.get? ref.target = some target) :
    registry.Derives admits (.content (.reference ref)) e ↔
      (admits ref.modifiers true ∧
        ∃ a, registry.Derives admits (.pool target ref.variation ref.modifiers.argumentValue) a ∧
          e ∈ ref.modifiers.forms a) ∨
        (admits ref.modifiers false ∧ e = {}) := by
  constructor
  · intro h
    cases h with
    | reference hother hpresent hpool hform =>
      obtain rfl := Option.some.inj (htarget.symm.trans hother)
      exact .inl ⟨hpresent, _, hpool, hform⟩
    | absent hmodifiers _ habsent => exact .inr ⟨Option.some.inj hmodifiers ▸ habsent, rfl⟩
  · rintro (⟨hpresent, a, hpool, hform⟩ | ⟨habsent, rfl⟩)
    · exact .reference htarget hpresent hpool hform
    · exact .absent rfl (Option.isSome_of_mem htarget) habsent

theorem contents_nil_iff : registry.Derives admits (.contents []) e ↔ e = {} :=
  ⟨fun h => by cases h; rfl, fun h => h ▸ .nil⟩

theorem contents_cons_iff {content : Content} {rest : List Content} :
    registry.Derives admits (.contents (content :: rest)) e ↔
      ∃ first, registry.Derives admits (.content content) first ∧
        ∃ second, registry.Derives admits (.contents rest) second ∧ e = first.append second := by
  constructor
  · intro h
    cases h with
    | cons hfirst hsecond => exact ⟨_, hfirst, _, hsecond, rfl⟩
  · rintro ⟨first, hfirst, second, hsecond, rfl⟩
    exact .cons hfirst hsecond

/-- Contents can be cut anywhere. -/
theorem contents_append_iff {left right : List Content} :
    registry.Derives admits (.contents (left ++ right)) e ↔
      ∃ first, registry.Derives admits (.contents left) first ∧
        ∃ second, registry.Derives admits (.contents right) second ∧ e = first.append second := by
  induction left generalizing e with
  | nil =>
    simp only [List.nil_append, contents_nil_iff]
    constructor
    · intro h
      exact ⟨{}, rfl, e, h, (Example.empty_append e).symm⟩
    · rintro ⟨_, rfl, second, hsecond, rfl⟩
      rwa [Example.empty_append]
  | cons content left ih =>
    simp only [List.cons_append, contents_cons_iff, ih]
    constructor
    · rintro ⟨a, ha, bc, ⟨b, hb, c, hc, rfl⟩, rfl⟩
      exact ⟨a.append b, ⟨a, ha, b, hb, rfl⟩, c, hc, (Example.append_assoc a b c).symm⟩
    · rintro ⟨ab, ⟨a, ha, b, hb, rfl⟩, c, hc, rfl⟩
      exact ⟨a, ha, b.append c, ⟨b, hb, c, hc, rfl⟩, Example.append_assoc a b c⟩

theorem contents_singleton_iff {content : Content} :
    registry.Derives admits (.contents [content]) e ↔
      registry.Derives admits (.content content) e := by
  simp only [contents_cons_iff, contents_nil_iff]
  constructor
  · rintro ⟨first, hfirst, _, rfl, rfl⟩
    rwa [Example.append_empty]
  · intro h
    exact ⟨e, h, {}, rfl, (Example.append_empty e).symm⟩

theorem branches_iff {branches : List Rule} :
    registry.Derives admits (.branches branches) e ↔
      ∃ branch ∈ branches, registry.Derives admits (.contents branch.contents) e := by
  constructor
  · intro h
    cases h with
    | branch hmem hbranch => exact ⟨_, hmem, hbranch⟩
  · rintro ⟨branch, hmem, hbranch⟩
    exact .branch hmem hbranch

theorem rules_iff {definition : Definition} {argument : Option String} {rules : List Rule} :
    registry.Derives admits (.rules definition argument rules) e ↔
      ∃ rule ∈ rules, ∃ drawn, registry.Derives admits (.contents rule.contents) drawn ∧
        ∃ variant ∈ drawn.caseVariants definition.varyCase,
          definition.finish rule argument variant = .ok e := by
  constructor
  · intro h
    cases h with
    | rule hmem hcontents hvariant hfinish =>
      exact ⟨_, hmem, _, hcontents, _, hvariant, hfinish⟩
  · rintro ⟨rule, hmem, drawn, hcontents, variant, hvariant, hfinish⟩
    exact .rule hmem hcontents hvariant hfinish

theorem pool_iff {definition : Definition} {variation argument : Option String} {rules : List Rule}
    (hrules : definition.rulesFor variation = .ok rules) :
    registry.Derives admits (.pool definition variation argument) e ↔
      registry.Derives admits (.rules definition argument rules) e := by
  constructor
  · intro h
    cases h with
    | pool hother hpool =>
      obtain rfl := Except.ok.inj (hrules.symm.trans hother)
      exact hpool
  · exact .pool hrules

end Registry.Derives

end Phrasebook
