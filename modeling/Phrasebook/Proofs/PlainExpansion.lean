import Phrasebook.Proofs.Reached

/-! The exhaustive expansion without its economies: no cache, no limit, and every repetition is kept.
What the generator finds for a pool are the different items of this list, in the order in which they
come first. Dropping a repetition before it is combined, varied or finished has no effect but to drop
what would come of it, which is a repetition again. -/

namespace Phrasebook

namespace Modifiers

/-- The alternatives of a content, with their repetitions. -/
def plain (modifiers : Modifiers) (base : List Expansion) : List Expansion :=
  (if modifiers.canInclude then modifiers.presentVariants base else []).map modifiers.spaced ++
    if modifiers.canExclude then [modifiers.absent] else []

theorem distinct_plain (modifiers : Modifiers) (base : List Expansion) :
    distinct (modifiers.plain base) = modifiers.alternatives base := rfl

theorem distinct_alternatives (modifiers : Modifiers) (base : List Expansion) :
    distinct (modifiers.alternatives base) = modifiers.alternatives base :=
  distinct_distinct _

theorem alternatives_congr (modifiers : Modifiers) {first second : List Expansion}
    (h : distinct first = distinct second) :
    modifiers.alternatives first = modifiers.alternatives second := by
  unfold alternatives
  refine distinct_append_congr (distinct_map_congr ?_ _) rfl
  split
  · exact distinct_flatMap_congr h fun _ => rfl
  · rfl

end Modifiers

theorem Expansion.pairs_congr {first second firstRight secondRight : List Expansion}
    (h : distinct first = distinct second) (hright : distinct firstRight = distinct secondRight) :
    distinct (pairs first firstRight) = distinct (pairs second secondRight) :=
  distinct_flatMap_congr h fun _ => distinct_filterMap_congr hright _

section Contents

variable (enumerateReference : Reference → Option (List Expansion))

mutual

/-- The alternatives of a content, unless a part of it cannot be expanded; `enumerateReference` gives
those of a reference. -/
def Content.enumerate : Content → Option (List Expansion)
  | .word text => some [.ofText text]
  | .wordGroup text modifiers => some (modifiers.plain [.ofText text])
  | .choice branches modifiers =>
    if branches.isEmpty then none
    else (if modifiers.canInclude then Rule.enumerateAll branches else some []).map modifiers.plain
  | .reference ref => enumerateReference ref

/-- Extends alternatives by those of contents, as long as there are any. -/
def Content.enumerateAll (before : List Expansion) : List Content → Option (List Expansion)
  | [] => some before
  | content :: rest => do
    let extended := Expansion.pairs before (← content.enumerate)
    if extended.isEmpty then return [] else Content.enumerateAll extended rest

def Rule.enumerate : Rule → Option (List Expansion)
  | { contents, .. } => Content.enumerateAll [{}] contents

def Rule.enumerateAll : List Rule → Option (List Expansion)
  | [] => some []
  | rule :: rest => do return (← rule.enumerate) ++ (← Rule.enumerateAll rest)

end

end Contents

namespace Definition

/-- The expansions of a rule in each case that they may have, all of them finished. -/
def enumerateRule (definition : Definition) (argument : Option String)
    (enumerate : Rule → Option (List Expansion)) (rule : Rule) : Option (List Expansion) := do
  (definition.variants (← enumerate rule)).mapM (definition.finished? rule argument)

/-- The expansions of a pool, unless it is met inside itself. -/
def enumeratePool (definition : Definition) (variation argument : Option String)
    (visiting : List PoolKey)
    (enumerate : (rules : List Rule) → definition.rulesFor variation = .ok rules →
      ⟨definition.key, variation⟩ ∉ visiting → Rule → Option (List Expansion)) :
    Option (List Expansion) :=
  if fresh : (⟨definition.key, variation⟩ : PoolKey) ∉ visiting then
    match found : definition.rulesFor variation with
    | .error _ => none
    | .ok rules =>
      (rules.mapM (definition.enumerateRule argument (enumerate rules found fresh))).map List.flatten
  else
    none

theorem enumeratePool_of_fresh {definition : Definition} {variation argument : Option String}
    {visiting : List PoolKey} {rules : List Rule} {enumerate : Rule → Option (List Expansion)}
    (hrules : definition.rulesFor variation = .ok rules)
    (hfresh : ⟨definition.key, variation⟩ ∉ visiting) :
    definition.enumeratePool variation argument visiting (fun _ _ _ => enumerate) =
      (rules.mapM (definition.enumerateRule argument enumerate)).map List.flatten := by
  rw [enumeratePool, dif_pos hfresh]
  split
  · next hother => simp [hrules] at hother
  · next hother =>
    obtain rfl := Except.ok.inj (hrules.symm.trans hother)
    rfl

end Definition

namespace Registry

def enumerateReference (registry : Registry) (visiting : List PoolKey) (reference : Reference) :
    Option (List Expansion) :=
  match found : registry.get? reference.target with
  | none => none
  | some target =>
    (if reference.modifiers.canInclude then
      target.enumeratePool reference.variation reference.modifiers.argumentValue visiting
        fun _ hrules fresh rule =>
          have := registry.freshPools_cons_lt found hrules fresh
          rule.enumerate fun inner =>
            registry.enumerateReference (⟨target.key, reference.variation⟩ :: visiting) inner
    else some []).map reference.modifiers.plain
termination_by registry.freshPools visiting

/-- All expansions of a pool of a unit, with their repetitions. -/
def enumerateUnit (registry : Registry) (definition : Definition)
    (variation argument : Option String) : Option (List Expansion) :=
  definition.enumeratePool variation argument [] fun _ _ _ rule =>
    rule.enumerate (registry.enumerateReference [⟨definition.key, variation⟩])

variable {registry : Registry} {visiting : List PoolKey}

theorem enumerateReference_of_some {ref : Reference} {target : Definition}
    (h : registry.get? ref.target = some target) (visiting : List PoolKey) :
    registry.enumerateReference visiting ref =
      (if ref.modifiers.canInclude then
        target.enumeratePool ref.variation ref.modifiers.argumentValue visiting fun _ _ _ rule =>
          rule.enumerate (registry.enumerateReference (⟨target.key, ref.variation⟩ :: visiting))
      else some []).map ref.modifiers.plain := by
  rw [enumerateReference]
  split
  · next hnone => simp [h] at hnone
  · next found hfound =>
    obtain rfl := Option.some.inj (h.symm.trans hfound)
    rfl

end Registry

section Append

variable {enumerateReference : Reference → Option (List Expansion)}

/-- The contents on the right extend what the ones on the left leave, if that is anything. -/
theorem Content.enumerateAll_append {before : List Expansion} (hsome : before ≠ [])
    (left right : List Content) :
    Content.enumerateAll enumerateReference before (left ++ right) =
      (Content.enumerateAll enumerateReference before left).bind fun mid =>
        if mid.isEmpty then some [] else Content.enumerateAll enumerateReference mid right := by
  induction left generalizing before with
  | nil =>
    have hempty : before.isEmpty = false := by simpa using hsome
    rw [List.nil_append, Content.enumerateAll, Option.bind_some, hempty]
    rfl
  | cons content left ih =>
    rw [List.cons_append, Content.enumerateAll, Content.enumerateAll]
    cases content.enumerate enumerateReference with
    | none => rfl
    | some last =>
      dsimp only [bind, Option.bind_some]
      by_cases hempty : (Expansion.pairs before last).isEmpty
      · rw [if_pos hempty, if_pos hempty]
        rfl
      · rw [if_neg hempty, if_neg hempty]
        exact ih (by simpa using hempty)

theorem Content.enumerateAll_singleton (before : List Expansion) {content : Content}
    {all : List Expansion} (h : content.enumerate enumerateReference = some all) :
    Content.enumerateAll enumerateReference before [content] =
      some (Expansion.pairs before all) := by
  rw [Content.enumerateAll, h]
  dsimp only [bind, Option.bind_some]
  split
  · next hempty => exact congrArg some (List.isEmpty_iff.mp hempty).symm
  · rw [Content.enumerateAll]

theorem Rule.enumerate_eq (rule : Rule) : rule.enumerate enumerateReference =
    Content.enumerateAll enumerateReference [{}] rule.contents := by
  cases rule
  rw [Rule.enumerate]

theorem Rule.enumerateAll_concat (past : List Rule) (rule : Rule) :
    Rule.enumerateAll enumerateReference (past ++ [rule]) =
      (Rule.enumerateAll enumerateReference past).bind fun before =>
        (rule.enumerate enumerateReference).map (before ++ ·) := by
  induction past with
  | nil =>
    rw [List.nil_append, Rule.enumerateAll, Rule.enumerateAll]
    cases rule.enumerate enumerateReference with
    | none => rfl
    | some all => simp [Rule.enumerateAll]
  | cons first past ih =>
    rw [List.cons_append, Rule.enumerateAll, Rule.enumerateAll, ih]
    cases first.enumerate enumerateReference with
    | none => rfl
    | some all =>
      cases Rule.enumerateAll enumerateReference past with
      | none => rfl
      | some before =>
        cases rule.enumerate enumerateReference with
        | none => rfl
        | some last => simp

end Append

theorem mapM_eq_some_filterMap {α β : Type} {f : α → Option β} {items : List α}
    (h : ∀ item ∈ items, (f item).isSome = true) : items.mapM f = some (items.filterMap f) := by
  induction items with
  | nil => rfl
  | cons item rest ih =>
    obtain ⟨b, hb⟩ := Option.isSome_iff_exists.mp (h item List.mem_cons_self)
    rw [List.mapM_cons, hb, ih fun other hother => h other (List.mem_cons_of_mem _ hother),
      List.filterMap_cons, hb]
    rfl

/-- The variants of expansions can all be finished if those of the different expansions can. -/
theorem Definition.exists_finished {definition : Definition} {rule : Rule}
    {argument : Option String} {plain all : List Expansion} (hsame : distinct plain = distinct all)
    (h : ∀ variant ∈ definition.variants all, ∃ done,
      definition.finished? rule argument variant = some done) :
    ∃ finished, (definition.variants plain).mapM (definition.finished? rule argument) =
        some finished ∧
      distinct finished =
        distinct ((definition.variants all).filterMap (definition.finished? rule argument)) := by
  have hvariants : distinct (definition.variants plain) = distinct (definition.variants all) :=
    distinct_flatMap_congr hsame fun _ => rfl
  refine ⟨_, mapM_eq_some_filterMap fun variant hvariant => ?_,
    distinct_filterMap_congr hvariants _⟩
  have hmem : variant ∈ definition.variants all := by
    rwa [← mem_distinct, hvariants, mem_distinct] at hvariant
  exact Option.isSome_iff_exists.mpr (h variant hmem)

namespace Registry

variable {registry : Registry} {limit : Nat} {table : Synonyms} {visiting : List PoolKey}

/-- The list of a phrase with all its repetitions, inside the pools being expanded. -/
def Enumerates (registry : Registry) (visiting : List PoolKey) : Phrase → List Expansion → Prop
  | .content content, all => content.enumerate (registry.enumerateReference visiting) = some all
  | .contents contents, all =>
    Content.enumerateAll (registry.enumerateReference visiting) [{}] contents = some all
  | .branches branches, all =>
    Rule.enumerateAll (registry.enumerateReference visiting) branches = some all
  | .rules definition argument rules, all =>
    (rules.mapM (definition.enumerateRule argument fun rule =>
      rule.enumerate (registry.enumerateReference visiting))).map List.flatten = some all
  | .pool definition variation argument, all =>
    registry.get? definition.key = some definition →
      (definition.enumeratePool variation argument visiting fun _ _ _ rule =>
        rule.enumerate (registry.enumerateReference (⟨definition.key, variation⟩ :: visiting))) =
          some all

/-- What the expansion of a phrase finds are the different items of its plain list. -/
theorem Expands.enumerates {phrase : Phrase} {all : List Expansion}
    (h : registry.Expands limit table phrase all)
    (hopen : registry.Open (.reached registry) visiting phrase) :
    ∃ plain, registry.Enumerates visiting phrase plain ∧ distinct plain = distinct all := by
  induction h generalizing visiting with
  | word text => exact ⟨_, rfl, rfl⟩
  | wordGroup _ => exact ⟨_, rfl, (distinct_distinct _).symm⟩
  | @choice branches modifiers base hsome hinclude _ _ ih =>
    obtain ⟨plain, hplain, hsame⟩ := ih (hopen.of_meets fun _ hpool => .choice hinclude hpool)
    refine ⟨modifiers.plain plain, ?_, ?_⟩
    · show Content.enumerate _ _ = _
      rw [Content.enumerate, if_neg (by simpa using hsome), if_pos hinclude, hplain, Option.map_some]
    · rw [modifiers.distinct_plain, modifiers.distinct_alternatives]
      exact modifiers.alternatives_congr (hsame.trans (distinct_distinct base).symm)
  | @skippedChoice branches modifiers hsome hskipped =>
    refine ⟨modifiers.plain [], ?_, (distinct_distinct _).symm⟩
    show Content.enumerate _ _ = _
    rw [Content.enumerate, if_neg (by simpa using hsome), if_neg (by simp [hskipped]),
      Option.map_some]
  | @reference ref target base htarget hinclude _ _ ih =>
    obtain ⟨plain, hplain, hsame⟩ := ih (hopen.target htarget hinclude)
    refine ⟨ref.modifiers.plain plain, ?_, ?_⟩
    · show Content.enumerate _ _ = _
      rw [Content.enumerate, enumerateReference_of_some htarget, if_pos hinclude,
        hplain (get?_key htarget), Option.map_some]
    · rw [Modifiers.distinct_plain, Modifiers.distinct_alternatives]
      exact Modifiers.alternatives_congr _ hsame
  | @skippedReference ref target htarget hskipped =>
    refine ⟨ref.modifiers.plain [], ?_, (distinct_distinct _).symm⟩
    show Content.enumerate _ _ = _
    rw [Content.enumerate, enumerateReference_of_some htarget, if_neg (by simp [hskipped]),
      Option.map_some]
  | nil => exact ⟨_, rfl, rfl⟩
  | @concat past content before all hbefore hall hroom ihbefore ihall =>
    obtain ⟨plainBefore, hplainBefore, hsameBefore⟩ := ihbefore
      (hopen.of_meets fun _ => .append_left)
    show ∃ plain, Content.enumerateAll _ _ _ = some plain ∧ _
    rw [Content.enumerateAll_append (by simp), hplainBefore, Option.bind_some]
    by_cases hempty : before = []
    · subst hempty
      obtain rfl := eq_nil_of_distinct_eq hsameBefore.symm rfl
      exact ⟨[], rfl, rfl⟩
    · have hsome : plainBefore ≠ [] := fun hnil => hempty (eq_nil_of_distinct_eq hsameBefore hnil)
      obtain ⟨plain, hplain, hsame⟩ := ihall (hopen.of_meets fun _ =>
        .contents (hbefore.passes hempty))
      have hextended := Content.enumerateAll_singleton plainBefore hplain
      refine ⟨Expansion.pairs plainBefore plain, ?_, ?_⟩
      · rw [if_neg (by simpa using hsome), hextended]
      · rw [distinct_distinct]
        exact Expansion.pairs_congr hsameBefore hsame
  | stop rest hbefore ih =>
    obtain ⟨plain, hplain, hsame⟩ := ih (hopen.of_meets fun _ => .append_left)
    obtain rfl := eq_nil_of_distinct_eq hsame.symm rfl
    refine ⟨[], ?_, rfl⟩
    show Content.enumerateAll _ _ _ = _
    rw [Content.enumerateAll_append (by simp), hplain]
    rfl
  | noBranch => exact ⟨_, rfl, rfl⟩
  | @branch past branch before all _ _ _ ihbefore ihall =>
    obtain ⟨plainBefore, hplainBefore, hsameBefore⟩ := ihbefore
      (hopen.of_meets fun _ => .branches_subset (List.subset_append_left _ _))
    obtain ⟨plain, hplain, hsame⟩ := ihall (hopen.of_meets fun _ => .branches (by simp))
    refine ⟨plainBefore ++ plain, ?_, distinct_append_congr hsameBefore hsame⟩
    show Rule.enumerateAll _ _ = _
    rw [Rule.enumerateAll_concat, hplainBefore, Rule.enumerate_eq, hplain]
    rfl
  | noRule definition argument => exact ⟨_, rfl, rfl⟩
  | @rule definition argument past rule before all finished _ _ hsome hfinished _ ihbefore ihall =>
    obtain ⟨plainBefore, hplainBefore, hsameBefore⟩ := ihbefore
      (hopen.of_meets fun _ => .rules_subset (List.subset_append_left _ _))
    obtain ⟨plain, hplain, hsame⟩ := ihall (hopen.of_meets fun _ => .rules (by simp))
    obtain ⟨plainFinished, hplainFinished, hsameFinished⟩ :=
      Definition.exists_finished hsame fun variant hvariant =>
        (hsome variant hvariant).imp fun _ h => h.1
    refine ⟨plainBefore ++ plainFinished, ?_, hfinished ▸ distinct_append_congr hsameBefore
      hsameFinished⟩
    have hrule : definition.enumerateRule argument
        (fun rule => rule.enumerate (registry.enumerateReference visiting)) rule =
          some plainFinished := by
      show (rule.enumerate _).bind _ = _
      rw [Rule.enumerate_eq, hplain]
      exact hplainFinished
    obtain ⟨lists, hlists, rfl⟩ := Option.map_eq_some_iff.mp hplainBefore
    show Option.map List.flatten (List.mapM _ _) = _
    rw [List.mapM_append, hlists, List.mapM_cons, List.mapM_nil, hrule]
    simp
  | @pool definition variation argument rules all hrules _ ih =>
    by_cases hdefinition : registry.get? definition.key = some definition
    · obtain ⟨plain, hplain, hsame⟩ := ih (hopen.rules hdefinition hrules)
      refine ⟨plain, fun _ => ?_, hsame.trans (distinct_distinct _).symm⟩
      rw [Definition.enumeratePool_of_fresh hrules (hopen.not_mem_visited hdefinition)]
      exact hplain
    · exact ⟨_, fun hdefinition' => (hdefinition hdefinition').elim, rfl⟩

/-- A pool has one list, whatever the table notes. -/
theorem Expands.pool_unique {definition : Definition} {variation argument : Option String}
    {other : Synonyms} {all found : List Expansion}
    (hdefinition : registry.get? definition.key = some definition)
    (h : registry.Expands limit table (.pool definition variation argument) all)
    (hfound : registry.Expands limit other (.pool definition variation argument) found) :
    all = found := by
  obtain ⟨plain, hplain, hsame⟩ := h.enumerates (h.open .nil)
  obtain ⟨plain', hplain', hsame'⟩ := hfound.enumerates (hfound.open .nil)
  have hequal := (hplain hdefinition).symm.trans (hplain' hdefinition)
  obtain rfl : plain = plain' := Option.some.inj hequal
  cases h with
  | pool => cases hfound with
    | pool => rw [← distinct_distinct, ← hsame, hsame', distinct_distinct]

end Registry

end Phrasebook
