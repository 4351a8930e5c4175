import Phrasebook.Proofs.Derivation

/-! Pools inside pools. A route says which contents are looked into; the pools that the contents of
a pool meet on a route are the pools that it uses. A pool without an endless chain of uses below it
is never met again inside itself, so that nothing that follows the route visits more pools at a time
than the registry has. -/

namespace Phrasebook

open Relation

theorem not_acc_of_transGen {α : Type} {r : α → α → Prop} {a : α} (h : TransGen r a a) :
    ¬Acc r a := by
  intro hacc
  replace hacc := hacc.transGen
  induction hacc with
  | intro a _ ih => exact ih a h h

/-- Which contents are looked into. -/
structure Route where
  /-- A choice with these modifiers is looked into. -/
  Enters : Modifiers → Prop
  /-- A reference with these modifiers is followed. -/
  Follows : Modifiers → Prop := Enters
  /-- What stands behind these contents is looked into. -/
  Passes : List Content → Prop

/-- The pools that are met first in a phrase on a route. -/
inductive Registry.Meets (registry : Registry) (route : Route) : Phrase → PoolKey → Prop
  | choice {branches : List Rule} {modifiers : Modifiers} {pool : PoolKey} :
      route.Enters modifiers → Meets registry route (.branches branches) pool →
      Meets registry route (.content (.choice branches modifiers)) pool
  | reference {ref : Reference} {target : Definition} :
      registry.get? ref.target = some target → route.Follows ref.modifiers →
      Meets registry route (.content (.reference ref)) ⟨target.key, ref.variation⟩
  | contents {past rest : List Content} {content : Content} {pool : PoolKey} :
      route.Passes past → Meets registry route (.content content) pool →
      Meets registry route (.contents (past ++ content :: rest)) pool
  | branches {branches : List Rule} {branch : Rule} {pool : PoolKey} :
      branch ∈ branches → Meets registry route (.contents branch.contents) pool →
      Meets registry route (.branches branches) pool
  | rules {definition : Definition} {argument : Option String} {rules : List Rule} {rule : Rule}
      {pool : PoolKey} :
      rule ∈ rules → Meets registry route (.contents rule.contents) pool →
      Meets registry route (.rules definition argument rules) pool
  | pool {definition : Definition} {variation argument : Option String} :
      registry.get? definition.key = some definition →
      Meets registry route (.pool definition variation argument) ⟨definition.key, variation⟩

namespace Registry

/-- The second pool uses the first directly. -/
def Uses (registry : Registry) (route : Route) (used user : PoolKey) : Prop :=
  ∃ definition rules, registry.get? user.unit = some definition ∧
    definition.rulesFor user.variation = .ok rules ∧
    ∃ rule ∈ rules, registry.Meets route (.contents rule.contents) used

/-- Inside the visited pools, the phrase meets only pools without an endless chain of uses, each
used by all that are visited. -/
def Open (registry : Registry) (route : Route) (visited : List PoolKey) (phrase : Phrase) : Prop :=
  ∀ pool, registry.Meets route phrase pool → Acc (registry.Uses route) pool ∧
    ∀ user ∈ visited, TransGen (registry.Uses route) pool user

variable {registry : Registry} {route : Route} {visited : List PoolKey}

theorem Uses.exists_rule {used : PoolKey} {definition : Definition} {variation : Option String}
    {rules : List Rule} (h : registry.Uses route used ⟨definition.key, variation⟩)
    (hdefinition : registry.get? definition.key = some definition)
    (hrules : definition.rulesFor variation = .ok rules) :
    ∃ rule ∈ rules, registry.Meets route (.contents rule.contents) used := by
  obtain ⟨other, otherRules, hother, hotherRules, hmeets⟩ := h
  obtain rfl := Option.some.inj (hdefinition.symm.trans hother)
  obtain rfl := Except.ok.inj (hrules.symm.trans hotherRules)
  exact hmeets

namespace Meets

variable {pool : PoolKey}

theorem not_word {text : String} : ¬registry.Meets route (.content (.word text)) pool := nofun

theorem not_wordGroup {text : String} {modifiers : Modifiers} :
    ¬registry.Meets route (.content (.wordGroup text modifiers)) pool := nofun

theorem choice_iff {branches : List Rule} {modifiers : Modifiers} :
    registry.Meets route (.content (.choice branches modifiers)) pool ↔
      route.Enters modifiers ∧ registry.Meets route (.branches branches) pool := by
  constructor
  · intro h
    cases h with
    | choice henters hmeets => exact ⟨henters, hmeets⟩
  · exact fun h => .choice h.1 h.2

theorem reference_iff {ref : Reference} {target : Definition}
    (htarget : registry.get? ref.target = some target) :
    registry.Meets route (.content (.reference ref)) pool ↔
      route.Follows ref.modifiers ∧ pool = ⟨target.key, ref.variation⟩ := by
  constructor
  · intro h
    cases h with
    | reference hother hfollows =>
      obtain rfl := Option.some.inj (htarget.symm.trans hother)
      exact ⟨hfollows, rfl⟩
  · rintro ⟨hfollows, rfl⟩
    exact .reference htarget hfollows

theorem contents_iff {all : List Content} :
    registry.Meets route (.contents all) pool ↔
      ∃ past content rest, all = past ++ content :: rest ∧ route.Passes past ∧
        registry.Meets route (.content content) pool := by
  constructor
  · intro h
    cases h with
    | contents hpasses hmeets => exact ⟨_, _, _, rfl, hpasses, hmeets⟩
  · rintro ⟨past, content, rest, rfl, hpasses, hmeets⟩
    exact .contents hpasses hmeets

theorem not_nil : ¬registry.Meets route (.contents []) pool := by
  simp [contents_iff]

/-- A pool is met in the contents on the left, or behind contents that are passed. -/
theorem of_append {left right : List Content}
    (h : registry.Meets route (.contents (left ++ right)) pool) :
    registry.Meets route (.contents left) pool ∨
      ∃ past content rest, right = past ++ content :: rest ∧ route.Passes (left ++ past) ∧
        registry.Meets route (.content content) pool := by
  obtain ⟨past, content, rest, hall, hpasses, hmeets⟩ := contents_iff.mp h
  rcases List.append_eq_append_iff.mp hall with ⟨between, rfl, rfl⟩ | ⟨between, rfl, hrest⟩
  · exact .inr ⟨between, content, rest, rfl, hpasses, hmeets⟩
  · cases between with
    | nil =>
      rw [List.append_nil]
      exact .inr ⟨[], content, rest, hrest.symm, by simpa using hpasses, hmeets⟩
    | cons first between =>
      obtain ⟨rfl, -⟩ := List.cons.inj hrest
      exact .inl (.contents hpasses hmeets)

theorem head {content : Content} {rest : List Content} (hpasses : route.Passes [])
    (h : registry.Meets route (.content content) pool) :
    registry.Meets route (.contents (content :: rest)) pool := by
  show registry.Meets route (.contents ([] ++ content :: rest)) pool
  exact .contents hpasses h

theorem cons {content : Content} {rest : List Content}
    (hpasses : ∀ past, route.Passes past → route.Passes (content :: past))
    (h : registry.Meets route (.contents rest) pool) :
    registry.Meets route (.contents (content :: rest)) pool := by
  obtain ⟨past, next, rest, rfl, hpast, hmeets⟩ := contents_iff.mp h
  show registry.Meets route (.contents ((content :: past) ++ next :: rest)) pool
  exact .contents (hpasses past hpast) hmeets

theorem branches_iff {branches : List Rule} : registry.Meets route (.branches branches) pool ↔
    ∃ branch ∈ branches, registry.Meets route (.contents branch.contents) pool := by
  constructor
  · intro h
    cases h with
    | branches hmem hmeets => exact ⟨_, hmem, hmeets⟩
  · rintro ⟨branch, hmem, hmeets⟩
    exact .branches hmem hmeets

theorem rules_iff {definition : Definition} {argument : Option String} {rules : List Rule} :
    registry.Meets route (.rules definition argument rules) pool ↔
      ∃ rule ∈ rules, registry.Meets route (.contents rule.contents) pool := by
  constructor
  · intro h
    cases h with
    | rules hmem hmeets => exact ⟨_, hmem, hmeets⟩
  · rintro ⟨rule, hmem, hmeets⟩
    exact .rules hmem hmeets

/-- What is met in a part of a list is met in the list. -/
theorem append_left {left right : List Content} (h : registry.Meets route (.contents left) pool) :
    registry.Meets route (.contents (left ++ right)) pool := by
  obtain ⟨past, content, rest, rfl, hpasses, hmeets⟩ := contents_iff.mp h
  rw [List.append_assoc, List.cons_append]
  exact .contents hpasses hmeets

theorem branches_subset {branches others : List Rule} (hsubset : branches ⊆ others)
    (h : registry.Meets route (.branches branches) pool) :
    registry.Meets route (.branches others) pool := by
  obtain ⟨branch, hmem, hmeets⟩ := branches_iff.mp h
  exact .branches (hsubset hmem) hmeets

theorem rules_subset {definition : Definition} {argument : Option String} {rules others : List Rule}
    (hsubset : rules ⊆ others) (h : registry.Meets route (.rules definition argument rules) pool) :
    registry.Meets route (.rules definition argument others) pool := by
  obtain ⟨rule, hmem, hmeets⟩ := rules_iff.mp h
  exact .rules (hsubset hmem) hmeets

theorem of_pool {definition : Definition} {variation argument : Option String}
    (h : registry.Meets route (.pool definition variation argument) pool) :
    pool = ⟨definition.key, variation⟩ := by
  cases h with
  | pool => rfl

end Meets

namespace Open

variable {phrase other : Phrase}

theorem of_meets (h : registry.Open route visited phrase)
    (hmeets : ∀ pool, registry.Meets route other pool → registry.Meets route phrase pool) :
    registry.Open route visited other :=
  fun pool hpool => h pool (hmeets pool hpool)

theorem target {ref : Reference} {target : Definition}
    (h : registry.Open route visited (.content (.reference ref)))
    (htarget : registry.get? ref.target = some target) (hfollows : route.Follows ref.modifiers) :
    registry.Open route visited (.pool target ref.variation ref.modifiers.argumentValue) :=
  h.of_meets fun _ hpool => Meets.of_pool hpool ▸ .reference htarget hfollows

variable {definition : Definition} {variation argument : Option String}

/-- A pool without an endless chain of uses is met nowhere inside itself. -/
theorem not_mem_visited (h : registry.Open route visited (.pool definition variation argument))
    (hdefinition : registry.get? definition.key = some definition) :
    ⟨definition.key, variation⟩ ∉ visited := by
  intro hmem
  obtain ⟨hacc, huser⟩ := h _ (.pool hdefinition)
  exact not_acc_of_transGen (huser _ hmem) hacc

/-- The rules of a pool are open inside that pool. -/
theorem rules (h : registry.Open route visited (.pool definition variation argument))
    (hdefinition : registry.get? definition.key = some definition) {rules : List Rule}
    (hrules : definition.rulesFor variation = .ok rules) :
    registry.Open route (⟨definition.key, variation⟩ :: visited)
      (.rules definition argument rules) := by
  intro pool hpool
  obtain ⟨hacc, huser⟩ := h _ (.pool hdefinition)
  have huses : registry.Uses route pool ⟨definition.key, variation⟩ :=
    ⟨definition, rules, hdefinition, hrules, Meets.rules_iff.mp hpool⟩
  refine ⟨hacc.inv huses, List.forall_mem_cons.mpr ⟨.single huses, fun user hmem => ?_⟩⟩
  exact (TransGen.single huses).trans (huser user hmem)

end Open

end Registry

end Phrasebook
