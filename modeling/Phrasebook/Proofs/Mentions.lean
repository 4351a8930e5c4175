import Phrasebook.Proofs.Bindings
import Phrasebook.Proofs.Markers
import Phrasebook.Proofs.Scripts

/-! The mentions of generated examples. They stay well placed wherever no marker that makes way for a
value reaches over the edge of a mention into a place that the value does not fill. A marker may well
do so: its characters can come partly from the text of a slot. -/

namespace Phrasebook

namespace Registry

variable {registry : Registry}

/-- Each step of a derivation keeps mentions well placed, if all that is bound does. -/
theorem Derives.wellPlaced
    (hclears : ∀ marker value e, registry.Binds marker value e → marker.Clears value e)
    {phrase : Phrase} {e : Example} (h : registry.Derivable phrase e)
    (hholds : registry.Holds phrase) : e.WellPlaced := by
  induction h with
  | word text => exact .ofText text
  | wordGroup _ hform => exact (Example.WellPlaced.ofText _).of_mem_forms hform
  | choice _ _ hform ih => exact (ih hholds.choice).of_mem_forms hform
  | reference htarget _ _ hform ih => exact (ih (hholds.reference htarget)).of_mem_forms hform
  | absent _ _ _ => exact .empty
  | nil => exact .empty
  | cons _ _ ihfirst ihsecond =>
    exact (ihfirst (hholds.content List.mem_cons_self)).append (ihsecond hholds.tail)
  | branch hbranch _ ih => exact ih (hholds.branch hbranch)
  | rule hrule hdrawn hvariant hfinish ih =>
    have hplaced := (ih (hholds.rule hrule)).of_mem_caseVariants hvariant
    rcases Definition.finish_eq_ok hfinish with ⟨-, e, value, rfl⟩ | ⟨hslot, rfl | hbound⟩
    · exact .asMention _ _ _
    · exact hplaced
    · obtain ⟨name, value, hname, hargument, rfl⟩ := hbound
      have hbinds := hholds.binds hslot hname hargument hrule hdrawn hvariant
      exact (hclears _ _ _ hbinds).wellPlaced_substitute hplaced
  | pool hrules _ ih => exact ih (hholds.rules hrules)

/-- All examples that are enumerated for a unit and all that are drawn have their mentions inside the
text, in its order and apart, whatever was generated before, if the template puts no value in the
place of a marker that reaches over the edge of a mention beyond that value. -/
theorem wellPlaced_of_clears (Source : Type) [RandomSource Source] {definition : Definition}
    (hdefinition : registry.get? definition.key = some definition) (variation : Option String)
    (hclears : ∀ marker value e, registry.Binds marker value e → marker.Clears value e) :
    (∀ limit state examples, registry.Expanded limit state →
      ((registry.examplesOf limit definition variation none).run state).1 = .ok examples →
      ∀ e ∈ examples, e.WellPlaced) ∧
    (∀ maxDepth depth (state : SampleState Source) e,
      ((registry.drawUnit maxDepth depth definition variation none).run state).1 = .ok e →
      e.WellPlaced) := by
  have hholds : registry.Holds (.pool definition variation none) := .unit hdefinition variation
  constructor
  · intro limit state examples hstate hrun e he
    obtain ⟨⟨all, hall, rfl⟩, -⟩ :=
      (examplesOf_ends hdefinition hstate.known).of_run_ok (Prod.ext hrun rfl)
    obtain ⟨expansion, hmem, rfl⟩ := List.mem_map.mp (mem_distinct.mp he)
    exact (hall.derivable hmem).wellPlaced hclears hholds
  · intro maxDepth depth state e hrun
    have hdraws := (registry.drawUnit_gives maxDepth depth definition variation none state).of_run_ok
      (Prod.ext hrun rfl)
    exact hdraws.derivable.wellPlaced hclears hholds

end Registry

/-! A template that binds an argument in front of a mention. -/

namespace Calls

def person : Definition := { key := ⟨.slot, "person"⟩, rules := [{ contents := [.word "Ada"] }] }

def call : Definition where
  key := ⟨.shared, "call"⟩
  argumentName := some "who"
  rules := [{ contents := [.word "call $who and ", .reference { target := person.key }] }]

def ring : Definition where
  key := ⟨.intent, "ring"⟩
  rules := [{ contents := [.reference
    { target := call.key, modifiers := { argumentValue := some "Bob" } }] }]

def phrasebook : Registry := (Registry.ofUnits [person, call, ring]).toOption.getD .empty

theorem units_phrasebook : phrasebook.units = [call, person, ring] := by rfl

theorem get?_ring : phrasebook.get? ring.key = some ring := by rfl

theorem derivable_person {e : Example} (h : phrasebook.Derivable (.pool person none none) e) :
    e = ⟨"Ada", [⟨"person", "Ada", 0, 3⟩]⟩ := by
  have hrules : person.rulesFor none = .ok person.rules := rfl
  obtain ⟨rule, hrule, drawn, hdrawn, variant, hvariant, hfinish⟩ :=
    Registry.Derives.rules_iff.mp ((Registry.Derives.pool_iff hrules).mp h)
  obtain rfl := List.mem_singleton.mp hrule
  obtain rfl := Registry.Derives.word_iff.mp (Registry.Derives.contents_singleton_iff.mp hdrawn)
  obtain rfl : variant = .ofText "Ada" := List.mem_singleton.mp hvariant
  exact (Except.ok.inj hfinish).symm

theorem derivable_call {rule : Rule} (hrule : rule ∈ call.rules) {e : Example}
    (h : phrasebook.Derivable (.contents rule.contents) e) :
    e = ⟨"call $who and Ada", [⟨"person", "Ada", 14, 3⟩]⟩ := by
  have htarget : phrasebook.get? person.key = some person := by rfl
  obtain rfl := List.mem_singleton.mp hrule
  obtain ⟨first, hfirst, second, hsecond, rfl⟩ := Registry.Derives.contents_cons_iff.mp h
  obtain rfl := Registry.Derives.word_iff.mp hfirst
  have hreference := Registry.Derives.contents_singleton_iff.mp hsecond
  rcases (Registry.Derives.reference_iff htarget).mp hreference with
    ⟨-, a, hperson, hform⟩ | ⟨habsent, -⟩
  · obtain rfl := derivable_person hperson
    obtain rfl := List.mem_singleton.mp hform
    decide
  · cases habsent rfl

/-- One value is bound, in one text. -/
theorem bound {marker : Marker} {value : String} {e : Example}
    (h : phrasebook.Binds marker value e) : marker = ⟨"who"⟩ ∧ value = "Bob" ∧
      e = ⟨"call $who and Ada", [⟨"person", "Ada", 14, 3⟩]⟩ := by
  have hreferences : phrasebook.references = [{ target := person.key },
      { target := call.key, modifiers := { argumentValue := some "Bob" } }] := by rfl
  cases h with
  | @of_rule definition variation rules rule name _ drawn _ hdefinition hslot hname hpasses hrules
      hrule hdrawn hvariant =>
    have hunit := Registry.mem_units_of_get? hdefinition
    simp only [units_phrasebook, List.mem_cons, List.not_mem_nil, or_false] at hunit
    obtain ⟨ref, href, hpool, hvalue⟩ := hpasses
    simp only [hreferences, List.mem_cons, List.not_mem_nil, or_false] at href
    rcases hunit with rfl | rfl | rfl
    · obtain rfl := Option.some.inj hname
      rcases href with rfl | rfl
      · cases hvalue
      · obtain rfl := Option.some.inj hvalue
        obtain rfl : none = variation := congrArg PoolKey.variation hpool
        obtain rfl := Except.ok.inj hrules
        obtain rfl := derivable_call hrule hdrawn
        exact ⟨rfl, rfl, List.mem_singleton.mp hvariant⟩
    · cases hslot
    · cases hname

theorem clears {marker : Marker} {value : String} {e : Example}
    (h : phrasebook.Binds marker value e) : marker.Clears value e := by
  obtain ⟨rfl, rfl, rfl⟩ := bound h
  exact ⟨by decide +kernel, by decide +kernel⟩

theorem wellPlaced_ring : ∃ e,
    ((phrasebook.drawUnit 3 0 ring none none).run { source := Script.mk [] }).1 = .ok e ∧
      e.mentions = [⟨"person", "Ada", 13, 3⟩] ∧ e.WellPlaced := by
  have hdrawn : ((phrasebook.drawUnit 3 0 ring none none).run { source := Script.mk [] }).1 =
      .ok ⟨"call Bob and Ada", [⟨"person", "Ada", 13, 3⟩]⟩ := by decide +kernel
  have hplaced := Registry.wellPlaced_of_clears Script get?_ring none fun _ _ _ => clears
  exact ⟨_, hdrawn, rfl, hplaced.2 3 0 _ _ hdrawn⟩

end Calls

/-! A template in which the characters of a marker come partly from the text of a slot. The value is
shorter than what stands before the slot, so that the mention comes to lie behind the text. -/

namespace Overlap

def person : Definition := { key := ⟨.slot, "person"⟩, rules := [{ contents := [.word "me"] }] }

def call : Definition where
  key := ⟨.shared, "call"⟩
  argumentName := some "name"
  rules := [{ contents := [.word "$na", .reference { target := person.key }] }]

def ring : Definition where
  key := ⟨.intent, "ring"⟩
  rules := [{ contents := [.reference
    { target := call.key, modifiers := { argumentValue := some "x" } }] }]

def phrasebook : Registry := (Registry.ofUnits [person, call, ring]).toOption.getD .empty

theorem not_wellPlaced_ring : phrasebook.check = .ok () ∧ ∃ e,
    ((phrasebook.drawUnit 3 0 ring none none).run { source := Script.mk [] }).1 = .ok e ∧
      ¬e.WellPlaced := by
  refine ⟨by decide +kernel, ⟨"x", [⟨"person", "me", 3, 0⟩]⟩, by decide +kernel, fun hplaced => ?_⟩
  exact absurd hplaced.isValid (by decide)

end Overlap

end Phrasebook
