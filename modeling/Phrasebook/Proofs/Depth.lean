import Phrasebook.Proofs.Declared
import Phrasebook.Proofs.Isolation
import Phrasebook.Proofs.Metering
import Phrasebook.Proofs.Scripts

/-! How deeply units nest while one is drawn. The count of the units that are entered never goes
beyond the limit and is again what it was where drawing ends. Without cycles the units that are
entered all differ, so that there are never more of them than the template has, and a limit of as
many units is never met. -/

namespace Phrasebook

open Relation

variable {Source : Type} [RandomSource Source]

/-! ### What drawing fails for -/

section Contents

variable {allowed : GenerationError → Prop} {drawReference : Reference → SampleM Source Example}
  {owner : UnitKey}

mutual

theorem Content.failsWithin_draw (hchoice : allowed (.template (.emptyChoice owner))) :
    (content : Content) →
    (∀ ref ∈ content.references, FailsWithin allowed (drawReference ref)) →
    FailsWithin allowed (content.draw drawReference owner)
  | .word _, _ => .pure _
  | .wordGroup _ _, _ => Modifiers.failsWithin_drawIfIncluded (.pure _)
  | .choice branches _, h => by
    rw [Content.references] at h
    refine Modifiers.failsWithin_drawIfIncluded (FailsWithin.bind (fun _ => ?_) fun place => ?_)
    · exact SampleM.index_ends fun _ _ _ => trivial
    · exact Rule.failsWithin_drawNth hchoice branches place h
  | .reference ref, h => h ref (by simp [Content.references])

theorem Content.failsWithin_drawAll (hchoice : allowed (.template (.emptyChoice owner))) :
    (contents : List Content) → (before : Example) →
    (∀ ref ∈ Content.referencesOfAll contents, FailsWithin allowed (drawReference ref)) →
    FailsWithin allowed (Content.drawAll drawReference owner before contents)
  | [], before, _ => .pure before
  | content :: rest, _, h => by
    rw [Content.referencesOfAll, List.forall_mem_append] at h
    exact (Content.failsWithin_draw hchoice content h.1).bind fun _ =>
      Content.failsWithin_drawAll hchoice rest _ h.2

theorem Rule.failsWithin_draw (hchoice : allowed (.template (.emptyChoice owner))) : (rule : Rule) →
    (∀ ref ∈ rule.references, FailsWithin allowed (drawReference ref)) →
    FailsWithin allowed (rule.draw drawReference owner)
  | { contents, .. }, h => by
    rw [Rule.references] at h
    exact Content.failsWithin_drawAll hchoice contents {} h

theorem Rule.failsWithin_drawNth (hchoice : allowed (.template (.emptyChoice owner))) :
    (branches : List Rule) → (place : Nat) →
    (∀ ref ∈ Rule.referencesOfAll branches, FailsWithin allowed (drawReference ref)) →
    FailsWithin allowed (Rule.drawNth drawReference owner branches place)
  | [], _, _ => fun _ => hchoice
  | branch :: rest, place, h => by
    rw [Rule.referencesOfAll, List.forall_mem_append] at h
    cases place with
    | zero => exact Rule.failsWithin_draw hchoice branch h.1
    | succ place => exact Rule.failsWithin_drawNth hchoice rest place h.2

end

end Contents

namespace Registry

variable {registry : Registry} {definition : Definition} {variation argument : Option String}

/-- A unit that is entered fails for a fault of the template, or as one of its references does. -/
theorem failsWithin_drawInside {allowed : GenerationError → Prop} {drawUnit : DrawsUnit Source}
    (htemplate : ∀ fault, allowed (.template fault))
    (hreference : ∀ ref ∈ definition.references,
      FailsWithin allowed (registry.drawReference drawUnit ref)) :
    FailsWithin allowed (registry.drawInside drawUnit definition variation argument) := by
  unfold drawInside
  cases hrules : definition.rulesFor variation with
  | error fault => exact fun _ => htemplate fault
  | ok rules =>
    refine FailsWithin.bind (fun _ => SampleM.index_ends fun _ _ _ => trivial) fun place => ?_
    cases hrule : rules[place]? with
    | none => exact fun _ => htemplate _
    | some rule =>
      have hmem : rule ∈ rules := List.mem_of_getElem? hrule
      refine (rule.failsWithin_draw (htemplate _) fun ref href => ?_).bind fun drawn => ?_
      · exact hreference ref (mem_references_of_rule hrules hmem href)
      refine FailsWithin.bind (fun _ => SampleM.drawCase_ends fun _ _ _ _ _ _ => trivial)
        fun variant => ?_
      cases definition.finish rule argument variant with
      | error fault => exact fun _ => htemplate fault
      | ok finished => exact fun _ => trivial

/-! ### Units without cycles -/

/-- The units that are entered, the last one first, where a unit is drawn: they are units of the
template, each once, and each refers to the unit, directly or through others. -/
structure Entered (registry : Registry) (path : List UnitKey) (unit : UnitKey) : Prop where
  nodup : path.Nodup
  defined : ∀ user ∈ path, ∃ definition, registry.get? user = some definition
  refers : ∀ user ∈ path, TransGen registry.Refers unit user

theorem Entered.nil (unit : UnitKey) : registry.Entered [] unit where
  nodup := List.nodup_nil
  defined _ huser := (List.not_mem_nil huser).elim
  refers _ huser := (List.not_mem_nil huser).elim

/-- Without cycles a unit is not entered inside itself. -/
theorem Entered.nodup_cons {path : List UnitKey} {unit : UnitKey} (h : registry.Entered path unit)
    (hacyclic : registry.Acyclic) : (unit :: path).Nodup :=
  List.nodup_cons.mpr ⟨fun hmem => hacyclic unit (h.refers unit hmem), h.nodup⟩

theorem Entered.cons {path : List UnitKey} (h : registry.Entered path definition.key)
    (hacyclic : registry.Acyclic) (hdefinition : registry.get? definition.key = some definition)
    {ref : Reference} (href : ref ∈ definition.references) :
    registry.Entered (definition.key :: path) ref.target := by
  have hrefers : registry.Refers ref.target definition.key :=
    ⟨definition, hdefinition, ref, href, rfl⟩
  constructor
  · exact h.nodup_cons hacyclic
  · exact List.forall_mem_cons.mpr ⟨⟨definition, hdefinition⟩, h.defined⟩
  · refine List.forall_mem_cons.mpr ⟨.single hrefers, fun user huser => ?_⟩
    exact .head hrefers (h.refers user huser)

theorem mem_keys_of_get? {unit : UnitKey} (h : registry.get? unit = some definition) :
    unit ∈ registry.units.map (·.key) :=
  List.mem_map.mpr ⟨definition, mem_units_of_get? h, key_of_get? h⟩

/-- Units of the template that all differ are no more than it has. -/
theorem length_le_size {path : List UnitKey} (hnodup : path.Nodup)
    (hdefined : ∀ user ∈ path, ∃ definition, registry.get? user = some definition) :
    path.length ≤ registry.size := by
  have hsubset : path ⊆ registry.units.map (·.key) := by
    intro user huser
    obtain ⟨definition, hdefinition⟩ := hdefined user huser
    exact mem_keys_of_get? hdefinition
  calc path.length
    _ ≤ (registry.units.map (·.key)).length := hnodup.length_le_of_subset hsubset
    _ = registry.size := by
      rw [map_key_units, List.length_map]
      exact Std.ExtTreeMap.length_toList

/-- Without cycles there is a unit of the template left to enter. -/
theorem Entered.length_lt {path : List UnitKey} (h : registry.Entered path definition.key)
    (hacyclic : registry.Acyclic) (hdefinition : registry.get? definition.key = some definition) :
    path.length < registry.size :=
  length_le_size (h.nodup_cons hacyclic)
    (List.forall_mem_cons.mpr ⟨⟨definition, hdefinition⟩, h.defined⟩)

/-- Without cycles, and where the limit leaves room for each unit of the template, no unit is nested
too deeply. -/
theorem failsWithin_drawUnit {maxDepth : Nat} (hacyclic : registry.Acyclic)
    (hsize : registry.size ≤ maxDepth) {path : List UnitKey}
    (hdefinition : registry.get? definition.key = some definition)
    (hentered : registry.Entered path definition.key) :
    FailsWithin (fun error => ∃ fault, error = .template fault)
      (registry.drawUnit maxDepth path.length definition variation argument :
        SampleM Source Example) := by
  -- Each unit that is entered takes room below the limit.
  induction hroom : maxDepth - path.length generalizing path definition variation argument with
  | zero =>
    have hlength := hentered.length_lt hacyclic hdefinition
    omega
  | succ room ih =>
    rw [registry.drawUnit_of_lt (by omega)]
    refine failsWithin_drawInside (fun fault => ⟨fault, rfl⟩) fun ref href => ?_
    unfold drawReference
    cases htarget : registry.get? ref.target with
    | none => exact fun _ => ⟨_, rfl⟩
    | some target =>
      refine Modifiers.failsWithin_drawIfIncluded ?_
      have hkey : target.key = ref.target := key_of_get? htarget
      have hinner : registry.Entered (definition.key :: path) target.key :=
        hkey ▸ hentered.cons hacyclic hdefinition href
      exact ih (hkey ▸ htarget) hinner (by rw [List.length_cons]; omega)

/-- Drawing with a count of the units that are entered is drawing, wherever the count begins:
through more levels than the limit leaves room for it never comes to the last one. Behind a success
and behind any failure the count is again where it began, and on the way it was beyond the limit at
most where it began there. Without cycles, and where the limit leaves room for each unit of the
template, a unit of the template is never nested too deeply. -/
theorem drawLevels_run (registry : Registry) (maxDepth depth : Nat) (definition : Definition)
    (variation argument : Option String) (beyond : DrawsUnit (Metered Source)) {levels : Nat}
    (hlevels : maxDepth - depth < levels) (state : SampleState Source) :
    let metered := (registry.drawLevels maxDepth beyond levels definition variation argument).run
      (state.metered depth)
    let drawn := (registry.drawUnit maxDepth depth definition variation argument).run state
    metered.1 = drawn.1 ∧ metered.2.unmetered = drawn.2 ∧
    metered.2.source.depth = depth ∧ metered.2.source.deepest ≤ max depth maxDepth ∧
    (registry.Acyclic → registry.get? definition.key = some definition → depth = 0 →
      registry.size ≤ maxDepth →
      ∀ unit operation limit, drawn.1 ≠ .error (.recursionLimit unit operation limit)) := by
  intro metered drawn
  have hmirrors : Mirrors (max depth maxDepth) depth
      (registry.drawLevels maxDepth beyond levels definition variation argument)
      (registry.drawUnit maxDepth depth definition variation argument) :=
    .drawLevels registry beyond (Nat.le_max_right _ _) hlevels definition variation argument
  obtain ⟨hresult, hback, -⟩ := alike_true_iff.mp hmirrors (state.metered depth) state
    ⟨rfl, rfl, Nat.le_max_left _ _⟩
  refine ⟨hresult, hback.unmetered_eq, hback.depth_eq, hback.deepest_le, ?_⟩
  rintro hacyclic hdefinition rfl hsize unit operation limit herror
  have hfails : FailsWithin (fun error => ∃ fault, error = .template fault)
      (registry.drawUnit maxDepth 0 definition variation argument : SampleM Source Example) :=
    failsWithin_drawUnit hacyclic hsize hdefinition (.nil definition.key)
  obtain ⟨fault, hfault⟩ := (hfails state).of_run_error (Prod.ext herror rfl)
  contradiction

end Registry

/-! A template without cycles, with room for each of its four units, and one with a unit that refers
to itself. -/

namespace Neighbours

/-- The intent is drawn within the limit. The unit that refers to itself meets the limit, and the
count is what it was all the same. -/
theorem drawn_ask_and_again : 4 - 0 < 5 ∧ together.Acyclic ∧ together.get? ask.key = some ask ∧
    together.size ≤ 4 ∧
    let beyond : DrawsUnit (Metered Script) := fun _ _ _ => return {}
    let state : SampleState Script := { source := ⟨[]⟩ }
    let metered := (together.drawLevels 4 beyond 5 ask none none).run (state.metered 0)
    let drawn := (together.drawUnit 4 0 ask none none).run state
    let again := (Refrain.phrasebook.drawLevels 3 beyond 4 Refrain.call (some "again")
      (some "Bob")).run (state.metered 0)
    metered.1 = drawn.1 ∧ metered.2.unmetered = drawn.2 ∧
    metered.2.source.depth = 0 ∧ metered.2.source.deepest ≤ 4 ∧
    drawn.1 ≠ .error (.recursionLimit ask.key .generateRandom 4) ∧
    again.1 = .error (.recursionLimit Refrain.call.key .generateRandom 3) ∧
    again.2.source.depth = 0 ∧ again.2.source.deepest ≤ 3 := by
  have hask : together.get? ask.key = some ask := by rfl
  have hsize : together.size ≤ 4 := by decide +kernel
  obtain ⟨hresult, hstate, hback, hdeepest, hlimit⟩ :=
    Registry.drawLevels_run together 4 0 ask none none (fun _ _ _ => return {})
      (by decide : 4 - 0 < 5) { source := Script.mk [] }
  obtain ⟨-, -, hback', hdeepest', -⟩ :=
    Registry.drawLevels_run Refrain.phrasebook 3 0 Refrain.call (some "again") (some "Bob")
      (fun _ _ _ => return {}) (by decide : 3 - 0 < 4) { source := Script.mk [] }
  refine ⟨by decide, acyclic_together, hask, hsize, hresult, hstate, hback, hdeepest, ?_, ?_,
    hback', hdeepest'⟩
  · exact hlimit acyclic_together hask rfl hsize _ _ _
  · rfl

end Neighbours

end Phrasebook
