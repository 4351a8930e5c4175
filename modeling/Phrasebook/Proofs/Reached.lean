import Phrasebook.Proofs.Enumeration
import Phrasebook.Proofs.Nesting

/-! The pools that an exhaustive expansion runs through. It looks into a content if the content may
be there, and behind contents as long as they have alternatives. What has an expansion has no endless
chain of pools below it. -/

namespace Phrasebook

open Relation

/-- The contents that an exhaustive expansion runs through. -/
def Route.reached (registry : Registry) : Route where
  Enters modifiers := modifiers.canInclude = true
  Passes past := ∃ s e, registry.Derives (Modifiers.Admits s) (.contents past) e

namespace Registry

variable {registry : Registry} {limit : Nat} {table : Synonyms} {phrase : Phrase}
  {all : List Expansion}

/-- Below the pools that a phrase with an expansion meets, there is no endless chain of uses, on any
route that the expansion runs through. -/
theorem Expands.acc_of_route {route : Route} (h : registry.Expands limit table phrase all)
    (henters : ∀ modifiers, route.Enters modifiers → modifiers.canInclude = true)
    (hfollows : ∀ modifiers, route.Follows modifiers → modifiers.canInclude = true)
    (hpasses : ∀ past, route.Passes past →
      ∃ s e, registry.Derives (Modifiers.Admits s) (.contents past) e) :
    ∀ pool, registry.Meets route phrase pool → Acc (registry.Uses route) pool := by
  induction h with
  | word text => exact fun _ hpool => (Meets.not_word hpool).elim
  | wordGroup _ => exact fun _ hpool => (Meets.not_wordGroup hpool).elim
  | choice _ _ _ _ ih => exact fun pool hpool => ih pool (Meets.choice_iff.mp hpool).2
  | skippedChoice _ hskipped =>
    intro pool hpool
    have hincluded := henters _ (Meets.choice_iff.mp hpool).1
    rw [hskipped] at hincluded
    contradiction
  | reference htarget _ _ _ ih =>
    intro pool hpool
    obtain ⟨-, rfl⟩ := (Meets.reference_iff htarget).mp hpool
    exact ih _ (.pool (get?_key htarget))
  | skippedReference htarget hskipped =>
    intro pool hpool
    have hincluded := hfollows _ ((Meets.reference_iff htarget).mp hpool).1
    rw [hskipped] at hincluded
    contradiction
  | nil => exact fun _ hpool => (Meets.not_nil hpool).elim
  | concat _ _ _ ihbefore ihall =>
    intro pool hpool
    rcases Meets.of_append hpool with hpool | ⟨past, content, rest, heq, -, hpool⟩
    · exact ihbefore pool hpool
    · obtain ⟨rfl, heq⟩ | ⟨_, rfl, heq⟩ := List.cons_eq_append_iff.mp heq
      · obtain ⟨rfl, -⟩ := List.cons.inj heq
        exact ihall pool hpool
      · simp at heq
  | stop rest hbefore ih =>
    intro pool hpool
    rcases Meets.of_append hpool with hpool | ⟨past, content, rest, -, hpassed, -⟩
    · exact ih pool hpool
    · obtain ⟨s, e, he⟩ := hpasses _ hpassed
      obtain ⟨first, hfirst, -⟩ := Derives.contents_append_iff.mp he
      exact (Expansion.not_lists_nil ((hbefore.lists_iff s first).mpr hfirst)).elim
  | noBranch =>
    intro pool hpool
    simp [Meets.branches_iff] at hpool
  | branch _ _ _ ihbefore ihall =>
    intro pool hpool
    obtain ⟨branch, hmem, hpool⟩ := Meets.branches_iff.mp hpool
    rcases List.mem_append.mp hmem with hmem | hmem
    · exact ihbefore pool (.branches hmem hpool)
    · exact ihall pool (List.mem_singleton.mp hmem ▸ hpool)
  | noRule definition argument =>
    intro pool hpool
    simp [Meets.rules_iff] at hpool
  | rule _ _ _ _ _ ihbefore ihall =>
    intro pool hpool
    obtain ⟨rule, hmem, hpool⟩ := Meets.rules_iff.mp hpool
    rcases List.mem_append.mp hmem with hmem | hmem
    · exact ihbefore pool (.rules hmem hpool)
    · exact ihall pool (List.mem_singleton.mp hmem ▸ hpool)
  | pool hrules _ ih =>
    intro pool hpool
    cases hpool with
    | pool hdefinition =>
      refine Acc.intro _ fun used huses => ?_
      exact ih used (Meets.rules_iff.mpr (huses.exists_rule hdefinition hrules))

/-- What stands behind contents with an alternative is reached. -/
theorem Expands.passes {past : List Content} {before : List Expansion}
    (h : registry.Expands limit table (.contents past) before) (hsome : before ≠ []) :
    (Route.reached registry).Passes past := by
  obtain ⟨expansion, hmem⟩ := List.exists_mem_of_ne_nil before hsome
  obtain ⟨s, hs⟩ := expansion.decisions.exists_obeyedBy
  exact ⟨s, expansion.result, (h.lists_iff s _).mp ⟨expansion, hmem, hs, rfl⟩⟩

/-- All visited pools use what the phrase meets, directly or through others. -/
def Below (registry : Registry) (visited : List PoolKey) (phrase : Phrase) : Prop :=
  ∀ pool, registry.Meets (.reached registry) phrase pool →
    ∀ user ∈ visited, TransGen (registry.Uses (.reached registry)) pool user

/-- What has an expansion is open inside the pools that it is below. -/
theorem Expands.open {visited : List PoolKey} (h : registry.Expands limit table phrase all)
    (hbelow : registry.Below visited phrase) : registry.Open (.reached registry) visited phrase :=
  fun pool hpool =>
    ⟨h.acc_of_route (fun _ h => h) (fun _ h => h) (fun _ h => h) pool hpool, hbelow pool hpool⟩

namespace Below

variable {visited : List PoolKey} {other : Phrase}

theorem nil : registry.Below [] phrase := by
  intro pool _ user hmem
  simp at hmem

theorem of_meets (h : registry.Below visited phrase)
    (hmeets : ∀ pool, registry.Meets (.reached registry) other pool →
      registry.Meets (.reached registry) phrase pool) : registry.Below visited other :=
  fun pool hpool => h pool (hmeets pool hpool)

theorem target {ref : Reference} {target : Definition} (argument : Option String)
    (h : registry.Below visited (.content (.reference ref)))
    (htarget : registry.get? ref.target = some target) (hinclude : ref.modifiers.canInclude = true) :
    registry.Below visited (.pool target ref.variation argument) :=
  h.of_meets fun _ hpool => Meets.of_pool hpool ▸ .reference htarget hinclude

/-- The rules of a pool are below the pool, and so below those above it. -/
theorem rules {definition : Definition} {variation argument : Option String} {rules : List Rule}
    {rule : Rule} (h : registry.Below visited (.pool definition variation argument))
    (hdefinition : registry.get? definition.key = some definition)
    (hrules : definition.rulesFor variation = .ok rules) (hrule : rule ∈ rules) :
    registry.Below (⟨definition.key, variation⟩ :: visited) (.contents rule.contents) := by
  intro pool hpool
  have huses : registry.Uses (.reached registry) pool ⟨definition.key, variation⟩ :=
    ⟨definition, rules, hdefinition, hrules, rule, hrule, hpool⟩
  refine List.forall_mem_cons.mpr ⟨.single huses, fun user hmem => ?_⟩
  exact (TransGen.single huses).trans (h _ (.pool hdefinition) user hmem)

end Below

end Registry

end Phrasebook
