import Phrasebook.Proofs.Alike
import Phrasebook.Proofs.PlainExpansion

/-! The cache does not show. A pool that has an expansion is expanded with the same result from every
state that earlier expansions leave behind, whether it is in the cache or not: no pool on the way to it
can stand inside it. A pool that has none is in no cache, so that it fails as it does from a new
state. -/

namespace Phrasebook

/-! ### Contents one behind the other -/

section Append

variable {expandReference : Reference → ExpandM (List Expansion)} {limit : Nat} {owner : UnitKey}

/-- The contents on the right extend what the ones on the left leave, if that is anything. -/
theorem Content.expandAll_append {before : List Expansion} (hsome : before ≠ [])
    (left right : List Content) :
    Content.expandAll expandReference limit owner before (left ++ right) =
      Content.expandAll expandReference limit owner before left >>= fun mid =>
        if mid.isEmpty then pure [] else Content.expandAll expandReference limit owner mid right := by
  induction left generalizing before with
  | nil =>
    rw [List.nil_append, Content.expandAll, pure_bind, if_neg (by simpa using hsome)]
  | cons content left ih =>
    rw [List.cons_append, Content.expandAll, Content.expandAll, bind_assoc]
    refine bind_congr fun all => ?_
    rw [bind_assoc]
    refine bind_congr fun extended => ?_
    by_cases hempty : extended.isEmpty
    · rw [if_pos hempty, if_pos hempty]
      rfl
    · rw [if_neg hempty, if_neg hempty]
      exact ih (by simpa using hempty)

theorem Rule.expand_eq (rule : Rule) : rule.expand expandReference limit owner =
    Content.expandAll expandReference limit owner [{}] rule.contents := by
  cases rule
  rw [Rule.expand]

theorem Rule.expandBranches_append (before : List Expansion) (left right : List Rule) :
    Rule.expandBranches expandReference limit owner before (left ++ right) =
      Rule.expandBranches expandReference limit owner before left >>= fun mid =>
        Rule.expandBranches expandReference limit owner mid right := by
  induction left generalizing before with
  | nil => rw [List.nil_append, Rule.expandBranches, pure_bind]
  | cons branch left ih =>
    rw [List.cons_append, Rule.expandBranches, Rule.expandBranches, bind_assoc]
    refine bind_congr fun all => ?_
    dsimp only
    rw [bind_assoc]
    exact bind_congr fun _ => ih _

end Append

namespace Registry

variable {registry : Registry} {limit : Nat} {α β : Type}

/-- From every state with a right cache, the run comes to the result and leaves the cache right: it
does what a computation does that has no state and comes to the result. -/
abbrev Settles (registry : Registry) (limit : Nat) (run : ExpandM α)
    (result : Except GenerationError α) : Prop :=
  Alike True (fun state _ => registry.Known limit state) (result = .ok ·) run
    (ExceptT.mk (pure result) : ExceptT GenerationError (StateM Unit) α)

/-- The run comes to the same result from every state with a right cache, and leaves the cache
right. -/
def Settled (registry : Registry) (limit : Nat) (run : ExpandM α) : Prop :=
  ∃ result, registry.Settles limit run result

namespace Settles

variable {run : ExpandM α} {f : α → ExpandM β} {result : Except GenerationError α} {a : α}

theorem run_fst {state : ExpandState} (h : registry.Settles limit run result)
    (hstate : registry.Known limit state) : (run.run state).1 = result :=
  (alike_true_iff.mp h state () hstate).1

theorem of_except (result : Except GenerationError α) :
    registry.Settles limit (ExceptT.mk (pure result) : ExpandM α) result :=
  Alike.of_except (fun _ heq => ⟨heq, heq⟩) fun _ _ heq => heq

theorem pure (a : α) : registry.Settles limit (Pure.pure a : ExpandM α) (.ok a) :=
  Alike.pure rfl

theorem throw (error : GenerationError) :
    registry.Settles limit (throw error : ExpandM α) (.error error) :=
  Alike.throw error

theorem ends {state : ExpandState} (h : registry.Settles limit run result)
    (hstate : registry.Known limit state) :
    Ends run state (fun a state' => result = .ok a ∧ registry.Known limit state')
      fun error state' => result = .error error ∧ registry.Known limit state' := by
  refine (h state () hstate).mono (fun a state' hok => ?_) fun error state' hfails => ?_
  · obtain ⟨heq, -, -, hkeeps⟩ := hok
    exact ⟨heq, hkeeps⟩
  · obtain ⟨_, hrun, hkeeps⟩ := hfails trivial
    exact ⟨congrArg Prod.fst hrun, hkeeps⟩

/-- A run that keeps the cache right settles on what it comes to from all right states. -/
theorem of_ends
    (hkeeps : ∀ state, registry.Known limit state →
      Ends run state (fun _ => registry.Known limit) fun _ => registry.Known limit)
    (h : ∀ state, registry.Known limit state →
      Ends run state (fun a _ => result = .ok a) fun error _ => result = .error error) :
    registry.Settles limit run result :=
  fun state _ hstate => ((h state hstate).and (hkeeps state hstate)).mono
    (fun a state' hok => ⟨hok.1, (), by rw [hok.1]; rfl, hok.2⟩)
    fun error state' hfails _ => ⟨(), by rw [hfails.1]; rfl, hfails.2⟩

theorem of_succeeds (h : ∀ state, registry.Known limit state →
    Succeeds run state fun a' state' => a = a' ∧ registry.Known limit state') :
    registry.Settles limit run (.ok a) :=
  fun state _ hstate => (h state hstate).mono
    (fun a' state' hok => ⟨congrArg _ hok.1, (), by rw [hok.1]; rfl, hok.2⟩) fun _ _ => False.elim

theorem succeeds {state : ExpandState} (h : registry.Settles limit run (.ok a))
    (hstate : registry.Known limit state) :
    Succeeds run state fun a' state' => a = a' ∧ registry.Known limit state' :=
  (h.ends hstate).mono (fun _ _ hok => ⟨Except.ok.inj hok.1, hok.2⟩) fun _ _ herror =>
    nomatch herror.1

theorem bind {result : Except GenerationError β} (h : registry.Settles limit run (.ok a))
    (hf : registry.Settles limit (f a) result) : registry.Settles limit (run >>= f) result :=
  Alike.bind h fun _ heq => Except.ok.inj heq ▸ hf

theorem bind_error {error : GenerationError} (h : registry.Settles limit run (.error error)) :
    registry.Settles limit (run >>= f) (.error error) :=
  Alike.bind (g := fun _ => MonadExcept.throw error) h nofun

end Settles

namespace Settled

variable {run : ExpandM α} {f : α → ExpandM β}

theorem bind (h : registry.Settled limit run)
    (hf : ∀ a, registry.Settles limit run (.ok a) → registry.Settled limit (f a)) :
    registry.Settled limit (run >>= f) := by
  obtain ⟨error | a, hresult⟩ := h
  · exact ⟨_, hresult.bind_error⟩
  · exact (hf a hresult).imp fun _ => hresult.bind

theorem foldlM {f : β → α → ExpandM β} (items : List α)
    (h : ∀ item ∈ items, ∀ b, registry.Settled limit (f b item)) (b : β) :
    registry.Settled limit (items.foldlM f b) := by
  induction items generalizing b with
  | nil => exact ⟨_, .pure b⟩
  | cons item rest ih =>
    rw [List.foldlM_cons]
    refine (h item List.mem_cons_self b).bind fun b' _ => ?_
    exact ih (fun other hother => h other (List.mem_cons_of_mem _ hother)) b'

end Settled

/-! ### The steps of an expansion -/

theorem settles_modifiers (modifiers : Modifiers) (base : List Expansion) :
    registry.Settles limit (modifiers.expand base) (.ok (modifiers.alternatives base)) :=
  .of_succeeds fun _ hstate => Modifiers.expand_ends fun _ hgrows _ => ⟨rfl, hstate.grows hgrows⟩

theorem settled_record {change : Synonyms → Synonyms}
    (hchange : ∀ table : Synonyms, table.Within (change table)) :
    registry.Settled limit (ExpandM.record change) :=
  ⟨.ok (), .of_succeeds fun state hstate =>
    ends_modify.mpr ⟨rfl, hstate.grows ⟨rfl, hchange state.synonyms⟩⟩⟩

theorem settles_checkLimit {owner : UnitKey} {size : Nat} (h : size ≤ limit) :
    registry.Settles limit (ExpandM.checkLimit limit owner size) (.ok ()) := by
  unfold ExpandM.checkLimit
  rw [if_neg (by omega)]
  exact .pure ()

theorem settled_checkLimit (owner : UnitKey) (size : Nat) :
    registry.Settled limit (ExpandM.checkLimit limit owner size) := by
  unfold ExpandM.checkLimit
  split
  · exact ⟨_, .throw _⟩
  · exact ⟨_, .pure _⟩

section Rules

variable {definition : Definition} {rule : Rule} {argument : Option String}
  {expand : Rule → ExpandM (List Expansion)} {found : Array Expansion}

theorem settled_finishVariant (decisions : Decisions) (found : Array Expansion)
    (variant : Example) : registry.Settled limit
      (definition.finishVariant limit rule argument decisions found variant) := by
  unfold Definition.finishVariant
  dsimp only
  split
  case' isTrue =>
    refine (settled_record fun table => table.within_recordMentions variant).bind fun _ _ => ?_
  all_goals
    split
    · exact ⟨_, .throw _⟩
    · refine (settled_record fun table => definition.within_recordSlot table _).bind fun _ _ => ?_
      exact (settled_checkLimit _ _).bind fun _ _ => ⟨_, .pure _⟩

theorem settled_expandRule (hexpand : registry.Settled limit (expand rule)) :
    registry.Settled limit (definition.expandRule limit argument expand found rule) := by
  unfold Definition.expandRule
  refine hexpand.bind fun expansions _ => ?_
  exact .foldlM _ (fun expansion _ found => .foldlM _ (fun variant _ found =>
    settled_finishVariant expansion.decisions found variant) found) found

/-- A rule all of whose variants can be finished adds them, if there is room. -/
theorem settles_expandRule {all : List Expansion}
    (hexpand : registry.Settles limit (expand rule) (.ok all))
    (hsome : ∀ variant ∈ definition.variants all, ∃ done,
      definition.finished? rule argument variant = some done)
    (hroom : found.size +
      ((definition.variants all).filterMap (definition.finished? rule argument)).length ≤ limit) :
    registry.Settles limit (definition.expandRule limit argument expand found rule)
      (.ok (found.toList ++
        (definition.variants all).filterMap (definition.finished? rule argument)).toArray) := by
  have hlength : ((definition.variants all).filterMap (definition.finished? rule argument)).length =
      (definition.variants all).length := by
    refine List.filterMap_length_eq_length.mpr fun variant hvariant => ?_
    exact Option.isSome_iff_exists.mpr (hsome variant hvariant)
  refine .of_succeeds fun state hstate => ?_
  apply Definition.expandRule_ends (hexpand.succeeds hstate) (by omega)
  · rintro _ state₁ found' state₂ ⟨rfl, hstate₁⟩ hgrows - - hlist
    exact ⟨by rw [← hlist], hstate₁.grows hgrows⟩
  · rintro _ state₁ variant error state₂ ⟨rfl, -⟩ - hvariant herror
    obtain ⟨done, hdone⟩ := hsome variant hvariant
    exact nomatch herror.symm.trans (Definition.finished?_eq_some_iff.mp hdone).1
  · rintro _ state₁ size state₂ ⟨rfl, -⟩ - hover
    omega

end Rules

/-! ### Expansions that are found again -/

/-- The expansion of a pool of a unit inside the pools being expanded. -/
def expandInside (registry : Registry) (limit : Nat) (visiting : List PoolKey)
    (definition : Definition) (variation argument : Option String) : ExpandM (List Expansion) :=
  definition.expandPool limit variation argument visiting fun _ _ _ rule =>
    rule.expand (registry.expandReference limit (⟨definition.key, variation⟩ :: visiting)) limit
      definition.key

/-- Inside the pools being expanded, the run of a phrase always finds the list. -/
def Finding (registry : Registry) (limit : Nat) (visiting : List PoolKey) :
    Phrase → List Expansion → Prop
  | .content content, all => ∀ owner, registry.Settles limit
    (content.expand (registry.expandReference limit visiting) limit owner) (.ok all)
  | .contents contents, all => ∀ owner, registry.Settles limit
    (Content.expandAll (registry.expandReference limit visiting) limit owner [{}] contents) (.ok all)
  | .branches branches, all => ∀ owner, registry.Settles limit
    (Rule.expandBranches (registry.expandReference limit visiting) limit owner [] branches) (.ok all)
  | .rules definition argument rules, all => registry.Settles limit
    (rules.foldlM (definition.expandRule limit argument fun rule =>
      rule.expand (registry.expandReference limit visiting) limit definition.key) #[])
    (.ok all.toArray)
  | .pool definition variation argument, all => registry.get? definition.key = some definition →
    registry.Settles limit (registry.expandInside limit visiting definition variation argument)
      (.ok all)

variable {table : Synonyms} {visiting : List PoolKey} {definition : Definition}
  {variation argument : Option String}

theorem expandInside_keeps (hdefinition : registry.get? definition.key = some definition)
    (visiting : List PoolKey) (state : ExpandState) (hstate : registry.Known limit state) :
    Ends (registry.expandInside limit visiting definition variation argument) state
      (fun _ => registry.Known limit) fun _ => registry.Known limit := by
  have hfinds : registry.Finds limit (.pool definition variation argument)
      (registry.expandInside limit visiting definition variation argument) state :=
    expand_pool hdefinition hstate fun _ _ _ rule => expand_rule (expand_reference _) rule
  exact hfinds.mono (fun _ _ hfound => hfound.known) fun _ _ h => h

/-- A pool settles on a result that it has in every case: in the cache, inside its own expansion,
without rules, and expanded rule by rule. -/
theorem settles_expandInside {result : Except GenerationError (List Expansion)}
    (hdefinition : registry.get? definition.key = some definition)
    (hknown : ∀ table all, registry.Expands limit table (.pool definition variation argument) all →
      result = .ok all)
    (hvisited : ⟨definition.key, variation⟩ ∈ visiting →
      result = .error (.recursiveExpansion definition.key))
    (hmissing : ⟨definition.key, variation⟩ ∉ visiting → ∀ fault,
      definition.rulesFor variation = .error fault → result = .error (.template fault))
    (hexpanded : ⟨definition.key, variation⟩ ∉ visiting → ∀ rules,
      definition.rulesFor variation = .ok rules → ∃ found,
        registry.Settles limit (rules.foldlM (definition.expandRule limit argument fun rule =>
          rule.expand (registry.expandReference limit (⟨definition.key, variation⟩ :: visiting))
            limit definition.key) #[]) found ∧
          result = found.map fun all => distinct all.toList) :
    registry.Settles limit (registry.expandInside limit visiting definition variation argument)
      result := by
  refine .of_ends (expandInside_keeps hdefinition visiting) fun state hstate => ?_
  apply Definition.expandPool_ends
  · exact fun all hcached => hknown _ all (hstate _ all hcached definition hdefinition)
  · exact hvisited
  · exact hmissing
  · intro rules hrules hfresh
    obtain ⟨found, hfound, rfl⟩ := hexpanded hfresh rules hrules
    refine (hfound.ends hstate).mono ?_ ?_
    · rintro all _ ⟨rfl, -⟩
      rfl
    · rintro error _ ⟨rfl, -⟩
      rfl

/-- What has an expansion is expanded again, from every state with a right cache. -/
theorem Expands.finding {phrase : Phrase} {all : List Expansion}
    (h : registry.Expands limit table phrase all)
    (hopen : registry.Open (.reached registry) visiting phrase) :
    registry.Finding limit visiting phrase all := by
  induction h generalizing visiting with
  | word text => exact fun _ => .pure _
  | wordGroup _ => exact fun _ => settles_modifiers _ _
  | @choice branches modifiers base hsome hinclude _ _ ih =>
    intro owner
    rw [Content.expand, if_neg (by simpa using hsome), if_pos hinclude]
    exact (ih (hopen.of_meets fun _ => .choice hinclude) owner).bind (settles_modifiers _ _)
  | @skippedChoice branches modifiers hsome hskipped =>
    intro owner
    rw [Content.expand, if_neg (by simpa using hsome), if_neg (by simp [hskipped])]
    exact (Settles.pure _).bind (settles_modifiers _ _)
  | @reference ref target base htarget hinclude _ _ ih =>
    intro owner
    rw [Content.expand, expandReference_of_some htarget, if_pos hinclude]
    exact (ih (hopen.target htarget hinclude) (get?_key htarget)).bind (settles_modifiers _ _)
  | @skippedReference ref target htarget hskipped =>
    intro owner
    rw [Content.expand, expandReference_of_some htarget, if_neg (by simp [hskipped])]
    exact (Settles.pure _).bind (settles_modifiers _ _)
  | nil => exact fun _ => .pure _
  | @concat past content before all hbefore _ hroom ihbefore ihall =>
    intro owner
    rw [Content.expandAll_append (by simp)]
    refine (ihbefore (hopen.of_meets fun _ => .append_left) owner).bind ?_
    by_cases hempty : before = []
    · subst hempty
      exact .pure []
    · rw [if_neg (by simpa using hempty), Content.expandAll]
      have hcontent := ihall (hopen.of_meets fun _ => .contents (hbefore.passes hempty)) owner
      refine hcontent.bind ?_
      rw [Expansion.combine_eq, if_pos hroom]
      refine (Settles.of_except (.ok (distinct (Expansion.pairs before all)))).bind ?_
      split
      · next hnone =>
        rw [List.isEmpty_iff.mp hnone]
        exact .pure []
      · exact .pure _
  | stop rest _ ih =>
    intro owner
    rw [Content.expandAll_append (by simp)]
    exact (ih (hopen.of_meets fun _ => .append_left) owner).bind (.pure [])
  | noBranch => exact fun _ => .pure _
  | @branch past branch before all _ _ hroom ihbefore ihall =>
    intro owner
    rw [Rule.expandBranches_append]
    refine (ihbefore (hopen.of_meets fun _ =>
      .branches_subset (List.subset_append_left _ _)) owner).bind ?_
    rw [Rule.expandBranches, Rule.expand_eq]
    refine (ihall (hopen.of_meets fun _ => .branches (by simp)) owner).bind ?_
    exact (settles_checkLimit hroom).bind (.pure _)
  | noRule definition argument => exact .pure _
  | @rule definition argument past rule before all finished _ _ hsome hfinished hroom ihbefore
      ihall =>
    show registry.Settles limit (List.foldlM _ _ _) _
    rw [List.foldlM_append]
    refine (ihbefore (hopen.of_meets fun _ =>
      .rules_subset (List.subset_append_left _ _))).bind ?_
    have hrule := ihall (hopen.of_meets fun _ => .rules (by simp)) definition.key
    rw [← Rule.expand_eq] at hrule
    rw [List.foldlM_cons]
    refine Settles.bind (settles_expandRule hrule
      (fun variant hvariant => (hsome variant hvariant).imp fun _ h => h.1)
      (by simpa [hfinished] using hroom)) ?_
    rw [hfinished]
    exact .pure _
  | @pool definition variation argument rules all hrules hall ih =>
    intro hdefinition
    apply settles_expandInside hdefinition
    · exact fun _ found hfound =>
        congrArg _ ((Expands.pool hrules hall).pool_unique hdefinition hfound)
    · exact fun hmem => (hopen.not_mem_visited hdefinition hmem).elim
    · intro _ fault hfault
      rw [hrules] at hfault
      contradiction
    · intro _ others hothers
      obtain rfl := Except.ok.inj (hrules.symm.trans hothers)
      exact ⟨_, ih (hopen.rules hdefinition hrules), rfl⟩

/-! ### Runs that may fail -/

/-- What a run settles on that finds lists of a phrase is a list of the phrase. -/
theorem Settles.exists_expands {phrase : Phrase} {run : ExpandM (List Expansion)}
    {all : List Expansion} (h : registry.Settles limit run (.ok all))
    (hfinds : ∀ state, registry.Known limit state → registry.Finds limit phrase run state)
    (table : Synonyms) :
    ∃ later, table.Within later ∧ registry.Expands limit later phrase all := by
  have hstate : registry.Known limit { synonyms := table } := caches_empty.of_cache_eq rfl
  obtain ⟨_, state', hrun, rfl, -⟩ := (h.succeeds hstate).exists_run
  have hfound := (hfinds _ hstate).of_run_ok hrun
  exact ⟨_, hfound.within, hfound.expands⟩

section Contents

/-- Inside the pools being expanded, each reference that leads below them comes to one result. -/
def SettlesReferences (registry : Registry) (limit : Nat) (visiting : List PoolKey) : Prop :=
  ∀ ref, registry.Below visiting (.content (.reference ref)) →
    registry.Settled limit (registry.expandReference limit visiting ref)

variable {owner : UnitKey}

mutual

theorem settled_content (hreference : registry.SettlesReferences limit visiting) :
    (content : Content) → registry.Below visiting (.content content) →
    registry.Settled limit
      (content.expand (registry.expandReference limit visiting) limit owner)
  | .word text, _ => ⟨_, .pure _⟩
  | .wordGroup text modifiers, _ => ⟨_, settles_modifiers _ _⟩
  | .choice branches modifiers, hbelow => by
    rw [Content.expand]
    by_cases hbranches : branches.isEmpty
    · rw [if_pos hbranches]
      exact ⟨_, (Settles.throw _).bind_error⟩
    rw [if_neg hbranches]
    by_cases hinclude : modifiers.canInclude
    · rw [if_pos hinclude]
      have hall := settled_branches hreference branches []
        (hbelow.of_meets fun _ => .choice hinclude)
      exact hall.bind fun _ _ => ⟨_, settles_modifiers _ _⟩
    · rw [if_neg hinclude]
      exact ⟨_, (Settles.pure _).bind (settles_modifiers _ _)⟩
  | .reference ref, hbelow => hreference ref hbelow

theorem settled_contents (hreference : registry.SettlesReferences limit visiting) :
    (rest past : List Content) → (before : List Expansion) →
    (table : Synonyms) → registry.Expands limit table (.contents past) before → before ≠ [] →
    registry.Below visiting (.contents (past ++ rest)) →
    registry.Settled limit
      (Content.expandAll (registry.expandReference limit visiting) limit owner before rest)
  | [], _, _, _, _, _, _ => ⟨_, .pure _⟩
  | content :: rest, past, before, table, hbefore, hsome, hbelow => by
    rw [Content.expandAll]
    have hcontent := settled_content hreference content
      (hbelow.of_meets fun _ => .contents (hbefore.passes hsome))
    refine hcontent.bind fun all hall => ?_
    rw [Expansion.combine_eq]
    by_cases hroom : (Expansion.pairs before all).length ≤ limit
    · rw [if_pos hroom]
      refine Exists.imp (fun _ => (Settles.of_except (.ok _)).bind) ?_
      by_cases hempty : (distinct (Expansion.pairs before all)).isEmpty
      · rw [if_pos hempty]
        exact ⟨_, .pure []⟩
      rw [if_neg hempty]
      obtain ⟨later, hwithin, hexpands⟩ := hall.exists_expands
        (expand_content (expand_reference visiting) content) table
      refine settled_contents hreference rest (past ++ [content]) _ later
        (.concat (hbefore.mono hwithin) hexpands hroom) (by simpa using hempty) ?_
      rwa [List.append_assoc]
    · rw [if_neg hroom]
      exact ⟨_, Settles.bind_error (.throw _)⟩

theorem settled_rule (hreference : registry.SettlesReferences limit visiting) :
    (rule : Rule) → registry.Below visiting (.contents rule.contents) →
    registry.Settled limit (rule.expand (registry.expandReference limit visiting) limit owner)
  | { contents, .. }, hbelow => settled_contents hreference contents [] [{}] ∅ .nil (by simp) hbelow

theorem settled_branches (hreference : registry.SettlesReferences limit visiting) :
    (branches : List Rule) → (before : List Expansion) →
    registry.Below visiting (.branches branches) →
    registry.Settled limit
      (Rule.expandBranches (registry.expandReference limit visiting) limit owner before branches)
  | [], _, _ => ⟨_, .pure _⟩
  | branch :: rest, before, hbelow => by
    rw [Rule.expandBranches]
    have hbranch := settled_rule hreference branch
      (hbelow.of_meets fun _ => .branches List.mem_cons_self)
    refine hbranch.bind fun all _ => (settled_checkLimit _ _).bind fun _ _ => ?_
    exact settled_branches hreference rest _
      (hbelow.of_meets fun _ => .branches_subset (List.subset_cons_self _ _))

end

end Contents

/-- A pool without an expansion is in no right cache, and fails alike from every state. -/
theorem settled_expandInside (hdefinition : registry.get? definition.key = some definition)
    (hbelow : registry.Below visiting (.pool definition variation argument))
    (hreference : ∀ rules, definition.rulesFor variation = .ok rules →
      ⟨definition.key, variation⟩ ∉ visiting →
      registry.SettlesReferences limit (⟨definition.key, variation⟩ :: visiting)) :
    registry.Settled limit
      (registry.expandInside limit visiting definition variation argument) := by
  by_cases hfound : ∃ table all,
      registry.Expands limit table (.pool definition variation argument) all
  · obtain ⟨table, all, hall⟩ := hfound
    exact ⟨_, hall.finding (hall.open hbelow) hdefinition⟩
  have hunknown {result : Except GenerationError (List Expansion)} (table : Synonyms)
      (all : List Expansion)
      (hall : registry.Expands limit table (.pool definition variation argument) all) :
      result = .ok all :=
    (hfound ⟨table, all, hall⟩).elim
  by_cases hmem : (⟨definition.key, variation⟩ : PoolKey) ∈ visiting
  · exact ⟨_, settles_expandInside hdefinition hunknown (fun _ => rfl) (fun h => (h hmem).elim)
      fun h => (h hmem).elim⟩
  cases hrules : definition.rulesFor variation with
  | error fault =>
    refine ⟨.error (.template fault), settles_expandInside hdefinition hunknown
      (fun h => (hmem h).elim) ?_ fun _ rules h => nomatch hrules.symm.trans h⟩
    exact fun _ other hother => Except.error.inj (hrules.symm.trans hother) ▸ rfl
  | ok rules =>
    obtain ⟨found, hfound⟩ : registry.Settled limit (rules.foldlM
        (definition.expandRule limit argument fun rule => rule.expand (registry.expandReference limit
          (⟨definition.key, variation⟩ :: visiting)) limit definition.key) #[]) :=
      .foldlM rules (fun rule hrule _ => settled_expandRule
        (settled_rule (hreference rules hrules hmem) rule
          (hbelow.rules hdefinition hrules hrule))) #[]
    refine ⟨found.map fun all => distinct all.toList, settles_expandInside hdefinition hunknown
      (fun h => (hmem h).elim) (fun _ fault h => nomatch hrules.symm.trans h)
      fun _ others hothers => ?_⟩
    obtain rfl := Except.ok.inj (hrules.symm.trans hothers)
    exact ⟨found, hfound, rfl⟩

theorem settled_expandReference (visiting : List PoolKey) (ref : Reference)
    (hbelow : registry.Below visiting (.content (.reference ref))) :
    registry.Settled limit (registry.expandReference limit visiting ref) := by
  -- Each pool that is entered leaves fewer pools that can still be entered.
  induction hroom : registry.freshPools visiting using Nat.strongRecOn
    generalizing visiting ref with
  | ind room ih =>
    subst hroom
    cases htarget : registry.get? ref.target with
    | none =>
      rw [expandReference_of_none htarget]
      exact ⟨_, .throw _⟩
    | some target =>
      rw [expandReference_of_some htarget]
      by_cases hinclude : ref.modifiers.canInclude
      · rw [if_pos hinclude]
        refine Settled.bind (settled_expandInside (get?_key htarget)
          (hbelow.target _ htarget hinclude) fun rules hrules hfresh inner hinner => ?_)
          fun _ _ => ⟨_, settles_modifiers _ _⟩
        exact ih _ (registry.freshPools_cons_lt htarget hrules hfresh) _ inner hinner rfl
      · rw [if_neg hinclude]
        exact ⟨_, (Settles.pure _).bind (settles_modifiers _ _)⟩

theorem settled_examplesOf (hdefinition : registry.get? definition.key = some definition) :
    registry.Settled limit (registry.examplesOf limit definition variation argument) := by
  have hunit : registry.Settled limit (registry.expandUnit limit definition variation argument) :=
    settled_expandInside hdefinition .nil fun _ _ _ => settled_expandReference _
  exact hunit.bind fun _ _ => ⟨_, .pure _⟩

/-- Earlier queries do not show: after any of them, whether they succeeded or failed, a unit has the
same examples as in a new generator, or the same error. The examples are the different ones of the
plain list, in the order in which they come first. -/
theorem examplesOf_of_expanded {state : ExpandState}
    (hdefinition : registry.get? definition.key = some definition)
    (hstate : registry.Expanded limit state) (variation argument : Option String) :
    ((registry.examplesOf limit definition variation argument).run state).1 =
        ((registry.examplesOf limit definition variation argument).run {}).1 ∧
      ∀ examples,
        ((registry.examplesOf limit definition variation argument).run state).1 = .ok examples →
          ∃ plain, registry.enumerateUnit definition variation argument = some plain ∧
            examples = distinct (plain.map (·.result)) := by
  obtain ⟨result, hresult⟩ : registry.Settled limit
    (registry.examplesOf limit definition variation argument) := settled_examplesOf hdefinition
  refine ⟨(hresult.run_fst hstate.known).trans (hresult.run_fst caches_empty).symm, ?_⟩
  intro examples hexamples
  have hrun : (registry.examplesOf limit definition variation argument).run state =
    (.ok examples, ((registry.examplesOf limit definition variation argument).run state).2) :=
      Prod.ext hexamples rfl
  obtain ⟨⟨all, hall, rfl⟩, -⟩ := (examplesOf_ends hdefinition hstate.known).of_run_ok hrun
  obtain ⟨plain, hplain, hsame⟩ := hall.enumerates (hall.open .nil)
  exact ⟨plain, hplain hdefinition, distinct_map_congr hsame.symm _⟩

end Registry

namespace Courtesy

/-- The unit that refers to itself fails behind its first rule; the intent has its examples all the
same. -/
theorem examplesOf_ask_of_echo : ∃ examples plain,
    ((phrasebook.examplesOf 8 ask none none).run
      ((phrasebook.examplesOf 8 echo none none).run {}).2).1 = .ok examples ∧
    phrasebook.enumerateUnit ask none none = some plain ∧
    examples = distinct (plain.map (·.result)) := by
  have hecho : phrasebook.Expanded 8 ((phrasebook.examplesOf 8 echo none none).run {}).2 :=
    .unit none none .start (by rfl)
  obtain ⟨hsame, hplain⟩ := Registry.examplesOf_of_expanded get?_ask hecho none none
  obtain ⟨examples, state, hrun⟩ := exists_examples_ask
  have hexamples := hsame.trans (congrArg Prod.fst hrun)
  obtain ⟨plain, hplain⟩ := hplain examples hexamples
  exact ⟨examples, plain, hexamples, hplain⟩

end Courtesy

end Phrasebook
