import Phrasebook.Proofs.Derivation
import Phrasebook.Proofs.Distinct
import Phrasebook.Proofs.Ends
import Phrasebook.Proofs.Synonyms

/-! What each step of an exhaustive expansion comes to: the lists that it makes, said without the
accumulators and the state, and the errors that it can end with. Only a pool touches the cache; the
synonyms met on the way have no part in the lists, and are recorded where the case of a text may vary
or a slot is finished. -/

namespace Phrasebook

open Std

namespace Expansion

/-- All pairs of expansions from two lists whose decisions agree, in order, with their repetitions.
-/
def pairs (left right : List Expansion) : List Expansion :=
  left.flatMap fun first => right.filterMap first.append?

section Combine

variable {limit : Nat} {excess : GenerationError}

theorem foldlM_pairWith (first : Expansion) (right : List Expansion) {found : Array Expansion}
    (hfound : found.size ≤ limit) :
    right.foldlM (first.pairWith limit excess) found =
      if found.size + (right.filterMap first.append?).length ≤ limit then
        .ok (found ++ right.filterMap first.append?)
      else .error excess := by
  induction right generalizing found with
  | nil => simp [hfound, pure, Except.pure]
  | cons second rest ih =>
    rw [List.foldlM_cons, List.filterMap_cons, pairWith]
    rcases hpair : first.append? second with _ | pair
    · exact ih hfound
    dsimp only
    by_cases hfull : limit < found.size + 1
    · rw [if_pos hfull, if_neg (by rw [List.length_cons]; omega)]
      rfl
    · rw [if_neg hfull]
      refine (ih (by rw [Array.size_push]; omega)).trans ?_
      simp only [Array.size_push, List.length_cons, Nat.add_assoc, Nat.add_comm 1]
      congr 2

theorem foldlM_foldlM_pairWith (left right : List Expansion) {found : Array Expansion}
    (hfound : found.size ≤ limit) :
    left.foldlM (fun found first => right.foldlM (first.pairWith limit excess) found) found =
      if found.size + (pairs left right).length ≤ limit then .ok (found ++ pairs left right)
      else .error excess := by
  induction left generalizing found with
  | nil => simp [pairs, hfound, pure, Except.pure]
  | cons first rest ih =>
    have hpairs : pairs (first :: rest) right = right.filterMap first.append? ++ pairs rest right :=
      rfl
    rw [List.foldlM_cons, foldlM_pairWith first right hfound, hpairs, List.length_append]
    have hsize : (found ++ right.filterMap first.append?).size =
        found.size + (right.filterMap first.append?).length := by
      rw [← Array.length_toList]
      simp
    split
    · next hroom =>
      refine (ih (hsize ▸ hroom)).trans ?_
      rw [hsize, Nat.add_assoc]
      congr 2
      exact Array.toList_inj.mp (by simp)
    · rw [if_neg (by omega)]
      rfl

/-- A combination is refused exactly if it has more pairs than the limit. -/
theorem combine_eq (owner : UnitKey) (left right : List Expansion) :
    combine limit owner left right =
      if (pairs left right).length ≤ limit then .ok (distinct (pairs left right))
      else .error (.capacityExceeded owner .generateAll limit
        (.ofNat left.length * .ofNat right.length)) := by
  unfold combine
  dsimp only
  rw [foldlM_foldlM_pairWith left right (Nat.zero_le _)]
  simp only [Array.size_empty, Nat.zero_add]
  split <;> simp [bind, Except.bind, pure, Except.pure]

end Combine

end Expansion

/-- The cache is as before, and all synonyms are kept. -/
structure ExpandState.Grows (before after : ExpandState) : Prop where
  cache : after.cache = before.cache
  synonyms : before.synonyms.Within after.synonyms

namespace ExpandState.Grows

variable {first second third : ExpandState}

theorem refl (state : ExpandState) : state.Grows state := ⟨rfl, .refl _⟩

theorem trans (h : first.Grows second) (h' : second.Grows third) : first.Grows third :=
  ⟨h'.cache.trans h.cache, h.synonyms.trans h'.synonyms⟩

end ExpandState.Grows

theorem Expansion.notes_foldl (all : List Expansion) (table : Synonyms) :
    table.Within (all.foldl (fun table expansion => table.recordMentions expansion.result) table) ∧
      ∀ expansion ∈ all, Synonyms.Notes
        (all.foldl (fun table expansion => table.recordMentions expansion.result) table)
        expansion.result := by
  induction all generalizing table with
  | nil => exact ⟨.refl table, by simp⟩
  | cons first rest ih =>
    obtain ⟨hwithin, hnotes⟩ := ih (table.recordMentions first.result)
    refine ⟨(table.within_recordMentions first.result).trans hwithin, ?_⟩
    refine List.forall_mem_cons.mpr ⟨?_, hnotes⟩
    exact (table.notes_recordMentions first.result).mono hwithin

namespace Modifiers

def spaced (modifiers : Modifiers) (expansion : Expansion) : Expansion :=
  { expansion with result := modifiers.addSpace expansion.result }

/-- The alternatives of a content, from those without its modifiers. -/
def alternatives (modifiers : Modifiers) (base : List Expansion) : List Expansion :=
  distinct ((if modifiers.canInclude then modifiers.presentVariants base else []).map
      modifiers.spaced ++
    if modifiers.canExclude then [modifiers.absent] else [])

/-- If the case of a text varies, what its mentions cover in either case is listed. -/
def Noted (modifiers : Modifiers) (base : List Expansion) (table : Synonyms) : Prop :=
  modifiers.varyCase = true → modifiers.canInclude = true →
    ∀ variant ∈ modifiers.presentVariants base, table.Notes variant.result

theorem Noted.mono {modifiers : Modifiers} {base : List Expansion} {table other : Synonyms}
    (h : modifiers.Noted base table) (hwithin : table.Within other) : modifiers.Noted base other :=
  fun hvary hinclude variant hvariant => (h hvary hinclude variant hvariant).mono hwithin

/-- Modifiers never fail and leave the cache alone. -/
theorem expand_ends {modifiers : Modifiers} {base : List Expansion} {state : ExpandState}
    {post : List Expansion → ExpandState → Prop} {failed : GenerationError → ExpandState → Prop}
    (h : ∀ state', state.Grows state' → modifiers.Noted base state'.synonyms →
      post (modifiers.alternatives base) state') :
    Ends (modifiers.expand base) state post failed := by
  unfold expand
  dsimp only
  split
  · have hnotes := Expansion.notes_foldl
      (if modifiers.canInclude then modifiers.presentVariants base else []) state.synonyms
    refine ends_bind.mpr (h _ ⟨rfl, hnotes.1⟩ fun _ hinclude variant hvariant => ?_)
    exact hnotes.2 variant (by rwa [if_pos hinclude])
  · next hvary => exact h _ (.refl state) fun hvary' => (hvary hvary').elim

end Modifiers

theorem ExpandM.checkLimit_ends {limit : Nat} {owner : UnitKey} {size : Nat} {state : ExpandState}
    {post : Unit → ExpandState → Prop} {failed : GenerationError → ExpandState → Prop}
    (hroom : size ≤ limit → post () state)
    (hfull : limit < size →
      failed (.capacityExceeded owner .generateAll limit (.ofNat size)) state) :
    Ends (ExpandM.checkLimit limit owner size) state post failed := by
  unfold ExpandM.checkLimit
  split
  · next h => exact hfull h
  · next h => exact hroom (Nat.le_of_not_lt h)

theorem Expansion.combine_ends {limit : Nat} {owner : UnitKey} {left right : List Expansion}
    {state : ExpandState} {post : List Expansion → ExpandState → Prop}
    {failed : GenerationError → ExpandState → Prop}
    (hroom : (pairs left right).length ≤ limit → post (distinct (pairs left right)) state)
    (hfull : limit < (pairs left right).length → failed (.capacityExceeded owner .generateAll limit
      (.ofNat left.length * .ofNat right.length)) state) :
    Ends (liftM (combine limit owner left right) : ExpandM (List Expansion)) state post failed := by
  rw [combine_eq]
  split
  · next h => exact hroom h
  · next h => exact hfull (Nat.lt_of_not_le h)

namespace Definition

/-- The variants of the expansions of a rule: each in either case if the case of the unit varies. -/
def variants (definition : Definition) (expansions : List Expansion) : List Expansion :=
  expansions.flatMap fun expansion =>
    (expansion.result.caseVariants definition.varyCase).map ({ expansion with result := · })

/-- A variant once it is finished, unless that fails. -/
def finished? (definition : Definition) (rule : Rule) (argument : Option String)
    (variant : Expansion) : Option Expansion :=
  match definition.finish rule argument variant.result with
  | .ok finished => some { variant with result := finished }
  | .error _ => none

theorem finished?_eq_some_iff {definition : Definition} {rule : Rule} {argument : Option String}
    {variant done : Expansion} : definition.finished? rule argument variant = some done ↔
      definition.finish rule argument variant.result = .ok done.result ∧
        done.decisions = variant.decisions := by
  unfold finished?
  cases definition.finish rule argument variant.result with
  | ok finished =>
    simp only [Option.some.injEq, Except.ok.injEq]
    constructor
    · rintro rfl
      exact ⟨rfl, rfl⟩
    · rintro ⟨rfl, hsame⟩
      rw [← hsame]
  | error error => simp

/-- What the mentions of a variant cover is listed if its case may vary, and what those of a finished
slot cover is listed in any case. -/
structure Noted (definition : Definition) (variant finished : Example) (table : Synonyms) :
    Prop where
  variant : definition.varyCase = true → table.Notes variant
  finished : definition.isSlot = true → table.Notes finished

theorem Noted.mono {definition : Definition} {variant finished : Example} {table other : Synonyms}
    (h : definition.Noted variant finished table) (hwithin : table.Within other) :
    definition.Noted variant finished other :=
  ⟨fun hvary => (h.variant hvary).mono hwithin, fun hslot => (h.finished hslot).mono hwithin⟩

variable {limit : Nat} {definition : Definition} {rule : Rule} {argument : Option String}
  {state : ExpandState} {failed : GenerationError → ExpandState → Prop}

theorem finishVariant_ends {decisions : Decisions} {found : Array Expansion} {variant : Example}
    {post : Array Expansion → ExpandState → Prop}
    (hdone : ∀ finished state', definition.finish rule argument variant = .ok finished →
      found.size < limit → state.Grows state' →
      definition.Noted variant finished state'.synonyms →
      post (found.push ⟨finished, decisions⟩) state')
    (herror : ∀ error state', definition.finish rule argument variant = .error error →
      state.Grows state' → failed (.template error) state')
    (hfull : ∀ state', limit ≤ found.size → state.Grows state' →
      failed (.capacityExceeded definition.key .generateAll limit (.ofNat (found.size + 1)))
        state') :
    Ends (definition.finishVariant limit rule argument decisions found variant) state post
      failed := by
  -- What follows the record of the mentions is the same whether there was one or not.
  have hrest (state' : ExpandState) (hstate : state.Grows state')
      (hvariant : definition.varyCase = true → state'.synonyms.Notes variant)
      {x : ExpandM (Array Expansion)}
      (hfailed : ∀ error, definition.finish rule argument variant = .error error →
        x = throw (.template error))
      (hfinished : ∀ finished, definition.finish rule argument variant = .ok finished → x = do
        ExpandM.record (definition.recordSlot · finished)
        ExpandM.checkLimit limit definition.key (found.push ⟨finished, decisions⟩).size
        return found.push ⟨finished, decisions⟩) : Ends x state' post failed := by
    cases hfinish : definition.finish rule argument variant with
    | error error =>
      rw [hfailed error hfinish]
      exact herror error state' hfinish hstate
    | ok finished =>
      rw [hfinished finished hfinish]
      have hwithin : state'.synonyms.Within (definition.recordSlot state'.synonyms finished) :=
        within_recordSlot _ _
      have hgrows : state.Grows { state' with
          synonyms := definition.recordSlot state'.synonyms finished } :=
        hstate.trans ⟨rfl, hwithin⟩
      refine ends_bind.mpr
        (ends_bind.mpr (ExpandM.checkLimit_ends (fun hroom => ?_) fun hover => ?_))
      · rw [Array.size_push] at hroom
        exact hdone finished _ hfinish hroom hgrows
          ⟨fun hvary => (hvariant hvary).mono hwithin, fun hslot => notes_recordSlot hslot _ _⟩
      · rw [Array.size_push] at hover ⊢
        exact hfull _ (Nat.le_of_lt_succ hover) hgrows
  unfold finishVariant
  dsimp only
  by_cases hvary : definition.varyCase
  · rw [if_pos hvary]
    refine ends_bind.mpr (ends_modify.mpr ?_)
    apply hrest
    · exact ⟨rfl, state.synonyms.within_recordMentions variant⟩
    · exact fun _ => state.synonyms.notes_recordMentions variant
    · exact fun error h => by rw [h]
    · exact fun finished h => by rw [h]
  · rw [if_neg hvary]
    exact hrest state (.refl state) (fun hvary' => (hvary hvary').elim)
      (fun error h => by rw [h]) fun finished h => by rw [h]

/-- The two loops over the expansions of a rule and their cases are one loop over the variants. -/
theorem foldlM_variants (expansions : List Expansion) (found : Array Expansion) :
    expansions.foldlM (fun found expansion =>
        (expansion.result.caseVariants definition.varyCase).foldlM
          (definition.finishVariant limit rule argument expansion.decisions) found) found =
      (definition.variants expansions).foldlM (fun found variant =>
        definition.finishVariant limit rule argument variant.decisions found variant.result)
        found := by
  induction expansions generalizing found with
  | nil => rfl
  | cons expansion rest ih =>
    have hvariants : definition.variants (expansion :: rest) =
        (expansion.result.caseVariants definition.varyCase).map ({ expansion with result := · }) ++
          definition.variants rest := rfl
    rw [List.foldlM_cons, hvariants, List.foldlM_append, List.foldlM_map]
    exact bind_congr ih

/-- The variants of the expansions of a rule are finished in order, as long as there is room. -/
theorem expandRule_ends {expand : Rule → ExpandM (List Expansion)} {found : Array Expansion}
    {mid : List Expansion → ExpandState → Prop} {post : Array Expansion → ExpandState → Prop}
    (hexpand : Ends (expand rule) state mid failed) (hfound : found.size ≤ limit)
    (hdone : ∀ expansions state₁ found' state₂, mid expansions state₁ →
      state₁.Grows state₂ → found'.size ≤ limit →
      (∀ variant ∈ definition.variants expansions, ∃ finished,
        definition.finished? rule argument variant = some finished ∧
          definition.Noted variant.result finished.result state₂.synonyms) →
      found'.toList = found.toList ++
        (definition.variants expansions).filterMap (definition.finished? rule argument) →
      post found' state₂)
    (herror : ∀ expansions state₁ variant error state₂, mid expansions state₁ →
      state₁.Grows state₂ → variant ∈ definition.variants expansions →
      definition.finish rule argument variant.result = .error error →
      failed (.template error) state₂)
    (hfull : ∀ expansions state₁ size state₂, mid expansions state₁ →
      state₁.Grows state₂ → limit < found.size + (definition.variants expansions).length →
      failed (.capacityExceeded definition.key .generateAll limit (.ofNat size)) state₂) :
    Ends (definition.expandRule limit argument expand found rule) state post failed := by
  unfold expandRule
  refine hexpand.bind fun expansions state₁ hmid => ?_
  rw [foldlM_variants]
  refine (Ends.foldlM (fun past found' state₂ => state₁.Grows state₂ ∧
      found'.size ≤ limit ∧
      (∀ variant ∈ past, ∃ finished, definition.finished? rule argument variant = some finished ∧
        definition.Noted variant.result finished.result state₂.synonyms) ∧
      found'.toList = found.toList ++ past.filterMap (definition.finished? rule argument))
    (definition.variants expansions) ?_ ⟨.refl state₁, hfound, by simp, by simp⟩).mono ?_
    fun _ _ h => h
  · rintro past variant rest found' state₂ hvariants ⟨hgrows, -, hsome, hlist⟩
    have hlength := congrArg List.length hvariants
    have hfinished := congrArg List.length hlist
    have hpast := List.length_filterMap_le (definition.finished? rule argument) past
    simp only [List.length_append, List.length_cons, Array.length_toList] at hlength hfinished
    apply finishVariant_ends
    · intro finished state₃ hfinish hroom hgrows' hnoted
      have hstep :
          definition.finished? rule argument variant = some ⟨finished, variant.decisions⟩ :=
        finished?_eq_some_iff.mpr ⟨hfinish, rfl⟩
      refine ⟨hgrows.trans hgrows', by rw [Array.size_push]; omega, ?_, ?_⟩
      · intro other hother
        rcases List.mem_append.mp hother with hother | hother
        · obtain ⟨finished, hfinished, hnoted⟩ := hsome other hother
          exact ⟨finished, hfinished, hnoted.mono hgrows'.synonyms⟩
        · exact List.mem_singleton.mp hother ▸ ⟨_, hstep, hnoted⟩
      · simp [hlist, hstep]
    · exact fun error state₃ hfinish hgrows' =>
        herror expansions state₁ variant error state₃ hmid (hgrows.trans hgrows')
          (hvariants ▸ List.mem_append_cons_self) hfinish
    · exact fun state₃ hover hgrows' =>
        hfull expansions state₁ _ state₃ hmid (hgrows.trans hgrows') (by omega)
  · rintro found' state₂ ⟨hgrows, hsize, hsome, hlist⟩
    exact hdone expansions state₁ found' state₂ hmid hgrows hsize hsome hlist

/-- A pool is known, or refused inside its own expansion, or expanded rule by rule and kept. -/
theorem expandPool_ends {variation : Option String} {visiting : List PoolKey}
    {expand : (rules : List Rule) → definition.rulesFor variation = .ok rules →
      ⟨definition.key, variation⟩ ∉ visiting → Rule → ExpandM (List Expansion)}
    {post : List Expansion → ExpandState → Prop}
    (hknown : ∀ expansions, state.cache[(⟨⟨definition.key, variation⟩, argument⟩ : PoolCall)]? =
      some expansions → post expansions state)
    (hvisited : ⟨definition.key, variation⟩ ∈ visiting →
      failed (.recursiveExpansion definition.key) state)
    (hmissing : ⟨definition.key, variation⟩ ∉ visiting →
      ∀ error, definition.rulesFor variation = .error error → failed (.template error) state)
    (hexpand : ∀ rules (hrules : definition.rulesFor variation = .ok rules)
      (hfresh : ⟨definition.key, variation⟩ ∉ visiting),
      Ends (rules.foldlM (definition.expandRule limit argument (expand rules hrules hfresh)) #[])
        state (fun all state' => post (distinct all.toList) { state' with
          cache := state'.cache.insert ⟨⟨definition.key, variation⟩, argument⟩
            (distinct all.toList) }) failed) :
    Ends (definition.expandPool limit variation argument visiting expand) state post failed := by
  unfold expandPool
  dsimp only
  refine ends_bind.mpr (ends_get.mpr ?_)
  split
  · next expansions hcached => exact hknown expansions hcached
  split
  · next hfresh =>
    split
    · next error hrules => exact hmissing hfresh error hrules
    · next rules hrules => exact (hexpand rules hrules hfresh).bind fun all state' hpost => hpost
  · next hvisiting => exact hvisited (Decidable.not_not.mp hvisiting)

end Definition

namespace Registry

theorem expandReference_of_none {registry : Registry} {ref : Reference}
    (h : registry.get? ref.target = none)
    (limit : Nat) (visiting : List PoolKey) : registry.expandReference limit visiting ref =
      throw (.template (.undefinedUnit ref.target)) := by
  rw [expandReference]
  split
  · rfl
  · next hsome => simp [h] at hsome

theorem expandReference_of_some {registry : Registry} {ref : Reference} {target : Definition}
    (h : registry.get? ref.target = some target) (limit : Nat) (visiting : List PoolKey) :
    registry.expandReference limit visiting ref =
      (if ref.modifiers.canInclude then
        target.expandPool limit ref.variation ref.modifiers.argumentValue visiting fun _ _ _ rule =>
          rule.expand (registry.expandReference limit (⟨target.key, ref.variation⟩ :: visiting)) limit
            target.key
      else pure []) >>= ref.modifiers.expand := by
  rw [expandReference]
  split
  · next hnone => simp [h] at hnone
  · next found hfound =>
    obtain rfl := Option.some.inj (h.symm.trans hfound)
    split <;> rfl

/-- The cache holds for each pool a list that fits the pool. -/
def Caches (registry : Registry) (fits : Phrase → List Expansion → Prop)
    (state : ExpandState) : Prop :=
  ∀ (call : PoolCall) (all : List Expansion), state.cache[call]? = some all →
    ∀ definition, registry.get? call.pool.unit = some definition →
      fits (.pool definition call.pool.variation call.argument) all

variable {registry : Registry} {fits : Phrase → List Expansion → Prop} {state state' : ExpandState}

theorem caches_empty : registry.Caches fits {} := by
  intro call all hcached
  simp at hcached

theorem Caches.of_cache_eq (h : registry.Caches fits state) (heq : state'.cache = state.cache) :
    registry.Caches fits state' := by
  unfold Caches
  rw [heq]
  exact h

theorem Caches.insert (h : registry.Caches fits state) {definition : Definition}
    {variation argument : Option String} {all : List Expansion}
    (hdefinition : registry.get? definition.key = some definition)
    (hfits : fits (.pool definition variation argument) all) :
    registry.Caches fits { state with
      cache := state.cache.insert ⟨⟨definition.key, variation⟩, argument⟩ all } := by
  intro call found hfound other hother
  dsimp only at hfound
  rw [ExtTreeMap.getElem?_insert] at hfound
  split at hfound
  · next heq =>
    obtain rfl := LawfulEqOrd.eq_of_compare heq
    obtain rfl := Option.some.inj hfound
    obtain rfl := Option.some.inj (hdefinition.symm.trans hother)
    exact hfits
  · exact h call found hfound other hother

end Registry

end Phrasebook
