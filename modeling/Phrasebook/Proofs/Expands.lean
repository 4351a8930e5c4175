import Phrasebook.Proofs.ExpansionSteps

/-! The exhaustive expansion as a relation between phrases and lists: one rule for each thing that
the expansion does when all goes well, without the cache, the pools being visited and the errors. A
table of synonyms that lists too much does no harm, so that one table, the last, stands for all that
the expansion goes through. Every run that succeeds follows the rules, and so does every list that it
leaves in the cache, so that a fact about the lists is proved by one induction over the rules. -/

namespace Phrasebook

open Std

/-- The list of expansions that a phrase has, none longer than the limit on the way. The table lists
what is recorded on the way. -/
inductive Registry.Expands (registry : Registry) (limit : Nat) (table : Synonyms) :
    Phrase → List Expansion → Prop
  | word (text : String) : Expands registry limit table (.content (.word text)) [.ofText text]
  | wordGroup {text : String} {modifiers : Modifiers} :
      modifiers.Noted [.ofText text] table →
      Expands registry limit table (.content (.wordGroup text modifiers))
        (modifiers.alternatives [.ofText text])
  | choice {branches : List Rule} {modifiers : Modifiers} {base : List Expansion} :
      branches ≠ [] → modifiers.canInclude = true →
      Expands registry limit table (.branches branches) base →
      modifiers.Noted (distinct base) table →
      Expands registry limit table (.content (.choice branches modifiers))
        (modifiers.alternatives (distinct base))
  | skippedChoice {branches : List Rule} {modifiers : Modifiers} :
      branches ≠ [] → modifiers.canInclude = false →
      Expands registry limit table (.content (.choice branches modifiers)) (modifiers.alternatives [])
  | reference {ref : Reference} {target : Definition} {base : List Expansion} :
      registry.get? ref.target = some target → ref.modifiers.canInclude = true →
      Expands registry limit table (.pool target ref.variation ref.modifiers.argumentValue) base →
      ref.modifiers.Noted base table →
      Expands registry limit table (.content (.reference ref)) (ref.modifiers.alternatives base)
  | skippedReference {ref : Reference} {target : Definition} :
      registry.get? ref.target = some target → ref.modifiers.canInclude = false →
      Expands registry limit table (.content (.reference ref)) (ref.modifiers.alternatives [])
  | nil : Expands registry limit table (.contents []) [{}]
  | concat {past : List Content} {content : Content} {before all : List Expansion} :
      Expands registry limit table (.contents past) before →
      Expands registry limit table (.content content) all →
      (Expansion.pairs before all).length ≤ limit →
      Expands registry limit table (.contents (past ++ [content]))
        (distinct (Expansion.pairs before all))
  /-- Behind contents without any alternative nothing is expanded any more. -/
  | stop {past : List Content} (rest : List Content) :
      Expands registry limit table (.contents past) [] →
      Expands registry limit table (.contents (past ++ rest)) []
  | noBranch : Expands registry limit table (.branches []) []
  | branch {past : List Rule} {branch : Rule} {before all : List Expansion} :
      Expands registry limit table (.branches past) before →
      Expands registry limit table (.contents branch.contents) all →
      (before ++ all).length ≤ limit →
      Expands registry limit table (.branches (past ++ [branch])) (before ++ all)
  | noRule (definition : Definition) (argument : Option String) :
      Expands registry limit table (.rules definition argument []) []
  | rule {definition : Definition} {argument : Option String} {past : List Rule} {rule : Rule}
      {before all finished : List Expansion} :
      Expands registry limit table (.rules definition argument past) before →
      Expands registry limit table (.contents rule.contents) all →
      (∀ variant ∈ definition.variants all, ∃ done,
        definition.finished? rule argument variant = some done ∧
          definition.Noted variant.result done.result table) →
      finished = (definition.variants all).filterMap (definition.finished? rule argument) →
      (before ++ finished).length ≤ limit →
      Expands registry limit table (.rules definition argument (past ++ [rule])) (before ++ finished)
  | pool {definition : Definition} {variation argument : Option String} {rules : List Rule}
      {all : List Expansion} :
      definition.rulesFor variation = .ok rules →
      Expands registry limit table (.rules definition argument rules) all →
      Expands registry limit table (.pool definition variation argument) (distinct all)

namespace Registry

variable {registry : Registry} {limit : Nat} {state : ExpandState}

theorem Expands.mono {table other : Synonyms} {phrase : Phrase} {all : List Expansion}
    (h : registry.Expands limit table phrase all) (hwithin : table.Within other) :
    registry.Expands limit other phrase all := by
  induction h with
  | word text => exact .word text
  | wordGroup hnoted => exact .wordGroup (hnoted.mono hwithin)
  | choice hsome hinclude _ hnoted ih => exact .choice hsome hinclude ih (hnoted.mono hwithin)
  | skippedChoice hsome hskipped => exact .skippedChoice hsome hskipped
  | reference htarget hinclude _ hnoted ih =>
    exact .reference htarget hinclude ih (hnoted.mono hwithin)
  | skippedReference htarget hskipped => exact .skippedReference htarget hskipped
  | nil => exact .nil
  | concat _ _ hroom ihbefore ihall => exact .concat ihbefore ihall hroom
  | stop rest _ ih => exact .stop rest ih
  | noBranch => exact .noBranch
  | branch _ _ hroom ihbefore ihall => exact .branch ihbefore ihall hroom
  | noRule definition argument => exact .noRule definition argument
  | rule _ _ hsome hfinished hroom ihbefore ihall =>
    refine .rule ihbefore ihall (fun variant hvariant => ?_) hfinished hroom
    obtain ⟨done, hdone, hnoted⟩ := hsome variant hvariant
    exact ⟨done, hdone, hnoted.mono hwithin⟩
  | pool hrules _ ih => exact .pool hrules ih

/-- Every list in the cache is that of its pool. -/
abbrev Known (registry : Registry) (limit : Nat) (state : ExpandState) : Prop :=
  registry.Caches (registry.Expands limit state.synonyms) state

theorem Known.grows {state' : ExpandState} (h : registry.Known limit state)
    (hgrows : state.Grows state') : registry.Known limit state' := by
  intro call all hcached definition hdefinition
  rw [hgrows.cache] at hcached
  exact (h call all hcached definition hdefinition).mono hgrows.synonyms

/-- What a run finds that succeeds: a list of the phrase. All synonyms are kept, and the cache stays
right. -/
structure Found (registry : Registry) (limit : Nat) (phrase : Phrase) (before : ExpandState)
    (all : List Expansion) (after : ExpandState) : Prop where
  expands : registry.Expands limit after.synonyms phrase all
  within : before.synonyms.Within after.synonyms
  known : registry.Known limit after

/-- Whatever a run gives is found, and however it ends, the cache stays right. -/
abbrev Finds (registry : Registry) (limit : Nat) (phrase : Phrase) (run : ExpandM (List Expansion))
    (state : ExpandState) : Prop :=
  Ends run state (registry.Found limit phrase state) fun _ state' => registry.Known limit state'

/-- What is found from a later state is found from an earlier one. -/
theorem Finds.after {phrase : Phrase} {run : ExpandM (List Expansion)} {state₁ : ExpandState}
    (h : registry.Finds limit phrase run state₁)
    (hwithin : state.synonyms.Within state₁.synonyms) :
    Ends run state₁ (registry.Found limit phrase state)
      fun _ state' => registry.Known limit state' :=
  h.mono (fun _ _ hfound => ⟨hfound.expands, hwithin.trans hfound.within, hfound.known⟩)
    fun _ _ h => h

section Contents

/-- For each reference, what is found are its expansions. -/
def FindsReferences (registry : Registry) (limit : Nat)
    (expandReference : Reference → ExpandM (List Expansion)) : Prop :=
  ∀ ref state, registry.Known limit state →
    registry.Finds limit (.content (.reference ref)) (expandReference ref) state

variable {expandReference : Reference → ExpandM (List Expansion)} {owner : UnitKey}

mutual

theorem expand_content (hreference : registry.FindsReferences limit expandReference) :
    (content : Content) → (state : ExpandState) →
    registry.Known limit state →
    registry.Finds limit (.content content) (content.expand expandReference limit owner) state
  | .word text, state, hstate => ends_pure.mpr ⟨.word text, .refl _, hstate⟩
  | .wordGroup text modifiers, state, hstate =>
    Modifiers.expand_ends fun _ hgrows hnoted =>
      ⟨.wordGroup hnoted, hgrows.synonyms, hstate.grows hgrows⟩
  | .choice branches modifiers, state, hstate => by
    unfold Content.expand
    by_cases hbranches : branches.isEmpty
    · rw [if_pos hbranches]
      exact ends_bind.mpr hstate
    rw [if_neg hbranches]
    have hsome : branches ≠ [] := fun heq => hbranches (List.isEmpty_iff.mpr heq)
    by_cases hinclude : modifiers.canInclude
    · rw [if_pos hinclude]
      have hall := expand_branches hreference branches [] [] state .noBranch hstate
      refine hall.bind fun base _ hbase => ?_
      refine Modifiers.expand_ends fun _ hgrows hnoted => ⟨?_, ?_, hbase.known.grows hgrows⟩
      · exact .choice hsome hinclude (hbase.expands.mono hgrows.synonyms) hnoted
      · exact hbase.within.trans hgrows.synonyms
    · rw [if_neg hinclude]
      exact ends_bind.mpr (Modifiers.expand_ends fun _ hgrows _ =>
        ⟨.skippedChoice hsome (Bool.eq_false_iff.mpr hinclude), hgrows.synonyms,
          hstate.grows hgrows⟩)
  | .reference ref, state, hstate => hreference ref state hstate

theorem expand_contents (hreference : registry.FindsReferences limit expandReference) :
    (rest past : List Content) → (before : List Expansion) →
    (state : ExpandState) → registry.Expands limit state.synonyms (.contents past) before →
    registry.Known limit state →
    registry.Finds limit (.contents (past ++ rest))
      (Content.expandAll expandReference limit owner before rest) state
  | [], past, before, state, hbefore, hstate => by
    rw [List.append_nil]
    exact ends_pure.mpr ⟨hbefore, .refl _, hstate⟩
  | content :: rest, past, before, state, hbefore, hstate => by
    unfold Content.expandAll
    refine (expand_content hreference content state hstate).bind fun all state₁ hall => ?_
    refine ends_bind.mpr (Expansion.combine_ends (fun hroom => ?_) fun _ => hall.known)
    have hextended := Expands.concat (hbefore.mono hall.within) hall.expands hroom
    rw [← List.singleton_append, ← List.append_assoc]
    split
    · next hempty =>
      rw [List.isEmpty_iff.mp hempty] at hextended
      exact ends_pure.mpr ⟨.stop rest hextended, hall.within, hall.known⟩
    · have hrest :=
        expand_contents hreference rest (past ++ [content]) _ state₁ hextended hall.known
      exact hrest.after hall.within

theorem expand_rule (hreference : registry.FindsReferences limit expandReference) :
    (rule : Rule) → (state : ExpandState) → registry.Known limit state →
    registry.Finds limit (.contents rule.contents) (rule.expand expandReference limit owner) state
  | { contents, .. }, state, hstate => expand_contents hreference contents [] [{}] state .nil hstate

theorem expand_branches (hreference : registry.FindsReferences limit expandReference) :
    (rest past : List Rule) → (before : List Expansion) →
    (state : ExpandState) → registry.Expands limit state.synonyms (.branches past) before →
    registry.Known limit state →
    registry.Finds limit (.branches (past ++ rest))
      (Rule.expandBranches expandReference limit owner before rest) state
  | [], past, before, state, hbefore, hstate => by
    rw [List.append_nil]
    exact ends_pure.mpr ⟨hbefore, .refl _, hstate⟩
  | branch :: rest, past, before, state, hbefore, hstate => by
    unfold Rule.expandBranches
    refine (expand_rule hreference branch state hstate).bind fun all state₁ hall => ?_
    refine ends_bind.mpr (ExpandM.checkLimit_ends (fun hroom => ?_) fun _ => hall.known)
    have hextended := Expands.branch (hbefore.mono hall.within) hall.expands hroom
    rw [← List.singleton_append, ← List.append_assoc]
    have hrest := expand_branches hreference rest (past ++ [branch]) _ state₁ hextended hall.known
    exact hrest.after hall.within

end

end Contents

theorem expand_pool {definition : Definition} {variation argument : Option String}
    {visiting : List PoolKey}
    {expand : (rules : List Rule) → definition.rulesFor variation = .ok rules →
      ⟨definition.key, variation⟩ ∉ visiting → Rule → ExpandM (List Expansion)}
    (hdefinition : registry.get? definition.key = some definition)
    (hstate : registry.Known limit state)
    (hexpand : ∀ rules hrules hfresh rule state, registry.Known limit state →
      registry.Finds limit (.contents rule.contents) (expand rules hrules hfresh rule) state) :
    registry.Finds limit (.pool definition variation argument)
      (definition.expandPool limit variation argument visiting expand) state := by
  apply Definition.expandPool_ends
  · exact fun all hcached => ⟨hstate _ all hcached definition hdefinition, .refl _, hstate⟩
  · exact fun _ => hstate
  · exact fun _ _ _ => hstate
  intro rules hrules hfresh
  refine (Ends.foldlM (fun past found state₁ =>
      registry.Found limit (.rules definition argument past) state found.toList state₁ ∧
        found.size ≤ limit)
    rules ?_ ⟨⟨.noRule definition argument, .refl _, hstate⟩, Nat.zero_le _⟩).mono ?_
    fun _ _ h => h
  · rintro past rule rest found state₁ - ⟨hfound, hsize⟩
    refine Definition.expandRule_ends (hexpand rules hrules hfresh rule state₁ hfound.known) hsize
      ?_ (fun _ _ _ _ _ hall hgrows _ _ => hall.known.grows hgrows)
      fun _ _ _ _ hall hgrows _ => hall.known.grows hgrows
    rintro all state₂ found' state₃ hall hgrows hsize' hsome hlist
    have hwithin := hall.within.trans hgrows.synonyms
    refine ⟨⟨?_, hfound.within.trans hwithin, hall.known.grows hgrows⟩, hsize'⟩
    rw [hlist]
    refine .rule (hfound.expands.mono hwithin) (hall.expands.mono hgrows.synonyms) hsome rfl ?_
    rw [← hlist, Array.length_toList]
    exact hsize'
  · rintro found state₁ ⟨hfound, -⟩
    have hpool := Expands.pool hrules hfound.expands
    exact ⟨hpool, hfound.within, hfound.known.insert hdefinition hpool⟩

theorem expand_reference (visiting : List PoolKey) (ref : Reference) (state : ExpandState)
    (hstate : registry.Known limit state) :
    registry.Finds limit (.content (.reference ref)) (registry.expandReference limit visiting ref)
      state := by
  -- Each pool that is entered leaves fewer pools that can still be entered.
  induction hfresh : registry.freshPools visiting using Nat.strongRecOn
    generalizing visiting ref state with
  | ind fresh ih =>
    subst hfresh
    rw [Registry.expandReference]
    split
    · exact hstate
    next target htarget =>
    by_cases hinclude : ref.modifiers.canInclude
    · rw [if_pos hinclude]
      refine (expand_pool (get?_key htarget) hstate ?_).bind fun base _ hbase => ?_
      · intro rules hrules hfresh rule state₁ hstate₁
        have hless := registry.freshPools_cons_lt htarget hrules hfresh
        exact expand_rule (fun ref state hstate => ih _ hless _ ref state hstate rfl) rule state₁
          hstate₁
      · refine Modifiers.expand_ends fun _ hgrows hnoted => ⟨?_, ?_, hbase.known.grows hgrows⟩
        · exact .reference htarget hinclude (hbase.expands.mono hgrows.synonyms) hnoted
        · exact hbase.within.trans hgrows.synonyms
    · rw [if_neg hinclude]
      exact ends_bind.mpr (Modifiers.expand_ends fun _ hgrows _ =>
        ⟨.skippedReference htarget (Bool.eq_false_iff.mpr hinclude), hgrows.synonyms,
          hstate.grows hgrows⟩)

theorem expandUnit_finds {definition : Definition} {variation argument : Option String}
    (hdefinition : registry.get? definition.key = some definition)
    (hstate : registry.Known limit state) :
    registry.Finds limit (.pool definition variation argument)
      (registry.expandUnit limit definition variation argument) state :=
  expand_pool hdefinition hstate fun _ _ _ rule state₁ hstate₁ =>
    expand_rule (expand_reference _) rule state₁ hstate₁

/-- The examples of a unit are the distinct results of the expansions of its pool. -/
theorem examplesOf_ends {definition : Definition} {variation argument : Option String}
    (hdefinition : registry.get? definition.key = some definition)
    (hstate : registry.Known limit state) :
    Ends (registry.examplesOf limit definition variation argument) state
      (fun examples state' => (∃ all,
        registry.Expands limit state'.synonyms (.pool definition variation argument) all ∧
          examples = distinct (all.map (·.result))) ∧ registry.Known limit state')
      fun _ state' => registry.Known limit state' := by
  unfold examplesOf
  refine (expandUnit_finds hdefinition hstate).bind fun all state' hall => ?_
  exact ends_pure.mpr ⟨⟨all, hall.expands, rfl⟩, hall.known⟩

/-- The states that queries for the examples of units can leave behind, one after the other and
whether they succeed or fail. -/
inductive Expanded (registry : Registry) (limit : Nat) : ExpandState → Prop
  | start : Expanded registry limit {}
  | unit {state : ExpandState} {definition : Definition} (variation argument : Option String) :
      Expanded registry limit state → registry.get? definition.key = some definition →
      Expanded registry limit
        ((registry.examplesOf limit definition variation argument).run state).2

theorem Expanded.known (h : registry.Expanded limit state) : registry.Known limit state := by
  induction h with
  | start => exact caches_empty
  | unit variation argument _ hdefinition ih =>
    exact ((examplesOf_ends hdefinition ih).mono (fun _ _ h => h.2) fun _ _ h => h).state

end Registry

end Phrasebook
