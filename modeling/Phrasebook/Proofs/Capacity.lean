import Phrasebook.Proofs.Counts
import Phrasebook.Proofs.Sizes

/-! A count that fits is enough. No list on the way of an expansion is longer than what it belongs
to weighs, and nothing weighs more than what it is part of, so that a pool whose weight is within
the limit is expanded without an error. -/

namespace Phrasebook

open Std

theorem Definition.finish_ne_error {definition : Definition} {rule : Rule}
    {argument : Option String} {e : Example} {error : TemplateError}
    (hargument : definition.argumentName.isSome → argument.isSome) :
    definition.finish rule argument e ≠ .error error := by
  unfold finish
  split
  · exact nofun
  · next hname => simp [hname] at hargument
  · exact nofun

namespace Registry

/-- Every list in the cache is as short as its pool weighs. -/
abbrev Weighed (registry : Registry) : ExpandState → Prop :=
  registry.Caches fun phrase all => ∀ n, registry.Weighs phrase n → all.length ≤ n

abbrev AtMost (registry : Registry) (n : Nat) (all : List Expansion) (state : ExpandState) : Prop :=
  all.length ≤ n ∧ registry.Weighed state

variable {registry : Registry} {limit : Nat} {state : ExpandState}

section Contents

/-- A reference whose weight is within the limit has no more expansions than that. -/
def FitsReferences (registry : Registry) (limit : Nat) (visited : List PoolKey)
    (expandReference : Reference → ExpandM (List Expansion)) : Prop :=
  ∀ ref n state, ref.check registry = .ok () →
    registry.Weighs (.content (.reference ref)) n → n ≤ limit →
    registry.Open .counted visited (.content (.reference ref)) → registry.Weighed state →
    Succeeds (expandReference ref) state (registry.AtMost n)

variable {expandReference : Reference → ExpandM (List Expansion)} {owner : UnitKey}
  {visited : List PoolKey}

mutual

theorem fit_content (hreference : registry.FitsReferences limit visited expandReference) :
    (content : Content) → (n : Nat) → (state : ExpandState) →
    content.check registry owner = .ok () → registry.Weighs (.content content) n → n ≤ limit →
    registry.Open .counted visited (.content content) → registry.Weighed state →
    Succeeds (content.expand expandReference limit owner) state (registry.AtMost n)
  | .word text, n, state, _, hweighs, _, _, hstate => by
    cases hweighs
    exact ends_pure.mpr ⟨Nat.le_refl 1, hstate⟩
  | .wordGroup text modifiers, n, state, _, hweighs, _, _, hstate => by
    cases hweighs
    exact Modifiers.expand_ends fun _ hgrows _ =>
      ⟨Modifiers.length_alternatives_le _, hstate.of_cache_eq hgrows.cache⟩
  | .choice branches modifiers, n, state, hcheck, hweighs, hlimit, hopen, hstate => by
    obtain ⟨-, hne, hbranches⟩ := Content.check_choice_iff.mp hcheck
    unfold Content.expand
    rw [if_neg (by simpa using hne)]
    cases hweighs with
    | @choice _ _ n _ hinclude hweighs =>
      have hle := Nat.le_trans (Modifiers.le_weight hinclude n) hlimit
      rw [if_pos hinclude]
      refine (fit_branches hreference branches [] n state hbranches hweighs (by simpa using hle)
        (hopen.of_meets fun _ => .choice hinclude) hstate).bind fun base state₁ hbase => ?_
      refine Modifiers.expand_ends fun _ hgrows _ => ⟨?_, hbase.2.of_cache_eq hgrows.cache⟩
      have hlength : base.length ≤ n := by simpa using hbase.1
      exact Nat.le_trans (Modifiers.length_alternatives_le _)
        (Modifiers.weight_mono (Nat.le_trans (length_distinct_le _) hlength))
    | skippedChoice hskipped =>
      rw [if_neg (by simp [hskipped])]
      exact ends_bind.mpr (Modifiers.expand_ends fun _ hgrows _ =>
        ⟨Modifiers.length_alternatives_le _, hstate.of_cache_eq hgrows.cache⟩)
  | .reference ref, n, state, hcheck, hweighs, hlimit, hopen, hstate =>
    hreference ref n state (Content.check_reference_iff.mp hcheck).2 hweighs hlimit hopen hstate

theorem fit_contents (hreference : registry.FitsReferences limit visited expandReference) :
    (rest : List Content) → (before : List Expansion) → (m n : Nat) →
    (state : ExpandState) → Content.checkAll registry owner rest = .ok () →
    registry.Weighs (.contents rest) n → before.length ≤ m → 0 < m → m * n ≤ limit →
    registry.Open .counted visited (.contents rest) → registry.Weighed state →
    Succeeds (Content.expandAll expandReference limit owner before rest) state
      (registry.AtMost (m * n))
  | [], before, m, n, state, _, hweighs, hbefore, _, _, _, hstate => by
    cases hweighs
    exact ends_pure.mpr ⟨by omega, hstate⟩
  | content :: rest, before, m, n, state, hcheck, hweighs, hbefore, hm, hlimit, hopen, hstate => by
    obtain ⟨hcontent, hrest⟩ := Content.checkAll_cons_iff.mp hcheck
    cases hweighs with
    | @cons _ _ first behind hfirst hbehind =>
      have hpos := hbehind.pos nofun
      have hproduct : first ≤ first * behind := Nat.le_mul_of_pos_right first hpos
      have hextended : m * first ≤ m * (first * behind) := Nat.mul_le_mul_left m hproduct
      have hfits : first ≤ limit := Nat.le_trans (Nat.le_mul_of_pos_left first hm)
        (Nat.le_trans hextended hlimit)
      refine (fit_content hreference content first state hcontent hfirst hfits
        (hopen.of_meets fun _ => .head trivial) hstate).bind
        fun all state₁ ⟨hall, hstate₁⟩ => ?_
      have hpairs : (Expansion.pairs before all).length ≤ m * first :=
        Nat.le_trans (Expansion.length_pairs_le _ _) (Nat.mul_le_mul hbefore hall)
      refine ends_bind.mpr (Expansion.combine_ends (fun _ => ?_) fun hfull => by omega)
      split
      · exact ends_pure.mpr ⟨Nat.zero_le _, hstate₁⟩
      · rw [← Nat.mul_assoc] at hlimit ⊢
        exact fit_contents hreference rest _ (m * first) behind state₁ hrest hbehind
          (Nat.le_trans (length_distinct_le _) hpairs) (Nat.mul_pos hm (hfirst.pos nofun)) hlimit
          (hopen.of_meets fun _ => .cons fun _ _ => trivial) hstate₁

theorem fit_rule (hreference : registry.FitsReferences limit visited expandReference) :
    (rule : Rule) → (n : Nat) → (state : ExpandState) →
    Content.checkAll registry owner rule.contents = .ok () →
    registry.Weighs (.contents rule.contents) n → n ≤ limit →
    registry.Open .counted visited (.contents rule.contents) → registry.Weighed state →
    Succeeds (rule.expand expandReference limit owner) state (registry.AtMost n)
  | { contents, .. }, n, state, hcheck, hweighs, hlimit, hopen, hstate => by
    rw [← Nat.one_mul n] at hlimit ⊢
    exact fit_contents hreference contents [{}] 1 n state hcheck hweighs (Nat.le_refl 1) Nat.one_pos
      hlimit hopen hstate

theorem fit_branches (hreference : registry.FitsReferences limit visited expandReference) :
    (branches : List Rule) → (before : List Expansion) → (n : Nat) →
    (state : ExpandState) → Rule.checkAll registry owner branches = .ok () →
    registry.Weighs (.branches branches) n → before.length + n ≤ limit →
    registry.Open .counted visited (.branches branches) → registry.Weighed state →
    Succeeds (Rule.expandBranches expandReference limit owner before branches) state
      (registry.AtMost (before.length + n))
  | [], before, n, state, _, hweighs, _, _, hstate => by
    cases hweighs
    exact ends_pure.mpr ⟨Nat.le_refl _, hstate⟩
  | branch :: rest, before, n, state, hcheck, hweighs, hlimit, hopen, hstate => by
    obtain ⟨hbranch, hrest⟩ := List.forall_mem_cons.mp (Rule.checkAll_iff.mp hcheck)
    cases hweighs with
    | @branch _ _ first behind hfirst hbehind =>
      refine (fit_rule hreference branch first state hbranch hfirst (by omega)
        (hopen.of_meets fun _ => .branches List.mem_cons_self) hstate).bind
        fun all state₁ ⟨hall, hstate₁⟩ => ?_
      have hlength : (before ++ all).length ≤ before.length + first := by
        rw [List.length_append]
        omega
      refine ends_bind.mpr (ExpandM.checkLimit_ends (fun _ => ?_) fun hfull => by omega)
      refine (fit_branches hreference rest (before ++ all) behind state₁
        (Rule.checkAll_iff.mpr hrest) hbehind (by omega) (hopen.of_meets fun _ hpool => ?_)
        hstate₁).mono
        (fun found _ hfound => ⟨Nat.le_trans hfound.1 (by omega), hfound.2⟩) fun _ _ h => h
      obtain ⟨other, hother, hpool⟩ := Meets.branches_iff.mp hpool
      exact .branches (List.mem_cons_of_mem _ hother) hpool

end

end Contents

theorem fit_rules {definition : Definition} {argument : Option String}
    {expand : Rule → ExpandM (List Expansion)} {found : Array Expansion} {n : Nat}
    (rules : List Rule)
    (hargument : definition.argumentName.isSome → argument.isSome)
    (hexpand : ∀ rule ∈ rules, ∀ m state, registry.Weighs (.contents rule.contents) m → m ≤ limit →
      registry.Weighed state → Succeeds (expand rule) state (registry.AtMost m))
    (hweighs : registry.Weighs (.branches rules) n)
    (hlimit : found.size + doubledIf definition.varyCase n ≤ limit)
    (hstate : registry.Weighed state) :
    Succeeds (rules.foldlM (definition.expandRule limit argument expand) found) state
      fun all state' => all.size ≤ found.size + doubledIf definition.varyCase n ∧
        registry.Weighed state' := by
  induction rules generalizing found n state with
  | nil => exact ends_pure.mpr ⟨Nat.le_add_right _ _, hstate⟩
  | cons rule rest ih =>
    cases hweighs with
    | @branch _ _ first behind hfirst hbehind =>
      rw [doubledIf_add] at hlimit ⊢
      have hdoubled := le_doubledIf definition.varyCase first
      have hmid : Succeeds (definition.expandRule limit argument expand found rule) state
          fun all state' => all.size ≤ found.size + doubledIf definition.varyCase first ∧
            registry.Weighed state' := by
        refine Definition.expandRule_ends
          (hexpand rule List.mem_cons_self first state hfirst (by omega) hstate) (by omega) ?_
          (fun _ _ _ _ _ _ _ _ herror => Definition.finish_ne_error hargument herror) ?_
        · rintro all state₁ found' state₂ ⟨hall, hstate₁⟩ hgrows - - hlist
          refine ⟨?_, hstate₁.of_cache_eq hgrows.cache⟩
          have hvariants := definition.length_variants_le all
          have hmono := doubledIf_mono definition.varyCase hall
          have hfinished := List.length_filterMap_le (definition.finished? rule argument)
            (definition.variants all)
          rw [← Array.length_toList, hlist, List.length_append, Array.length_toList]
          omega
        · rintro all state₁ size state₂ ⟨hall, -⟩ - hfull
          have hvariants := definition.length_variants_le all
          have hmono := doubledIf_mono definition.varyCase hall
          omega
      rw [List.foldlM_cons]
      refine hmid.bind fun found' state₁ ⟨hsize, hstate₁⟩ => ?_
      refine (ih (fun rule hrule => hexpand rule (List.mem_cons_of_mem _ hrule)) hbehind (by omega)
        hstate₁).mono (fun all _ hall => ⟨by omega, hall.2⟩) fun _ _ h => h

theorem fit_pool {definition : Definition} {variation argument : Option String}
    {visited : List PoolKey} {n : Nat}
    {expand : (rules : List Rule) → definition.rulesFor variation = .ok rules →
      ⟨definition.key, variation⟩ ∉ visited → Rule → ExpandM (List Expansion)}
    (hdefinition : registry.get? definition.key = some definition)
    (hargument : definition.argumentName.isSome → argument.isSome)
    (hexpand : ∀ rules hrules hfresh, ∀ rule ∈ rules, ∀ m state,
      registry.Weighs (.contents rule.contents) m → m ≤ limit → registry.Weighed state →
      Succeeds (expand rules hrules hfresh rule) state (registry.AtMost m))
    (hweighs : registry.Weighs (.pool definition variation argument) n) (hlimit : n ≤ limit)
    (hopen : registry.Open .counted visited (.pool definition variation argument))
    (hstate : registry.Weighed state) :
    Succeeds (definition.expandPool limit variation argument visited expand) state
      (registry.AtMost n) := by
  apply Definition.expandPool_ends
  · exact fun all hcached => ⟨hstate _ _ hcached definition hdefinition n hweighs, hstate⟩
  · exact hopen.not_mem_visited hdefinition
  · intro _ error herror
    cases hweighs with
    | pool hrules => simp [herror] at hrules
  intro rules hrules hfresh
  cases hweighs with
  | @pool _ _ _ _ n hother hbranches =>
    obtain rfl := Except.ok.inj (hrules.symm.trans hother)
    refine (fit_rules rules hargument (hexpand rules hrules hfresh) hbranches
      (by simpa using hlimit) hstate).mono ?_ fun _ _ h => h
    rintro all state₁ ⟨hsize, hstate₁⟩
    have hlength : (distinct all.toList).length ≤ doubledIf definition.varyCase n := by
      refine Nat.le_trans (length_distinct_le _) ?_
      rw [Array.length_toList]
      simpa using hsize
    have hweighs : registry.Weighs (.pool definition variation argument) _ := .pool hrules hbranches
    exact ⟨hlength, hstate₁.insert hdefinition fun m hm => hm.unique hweighs ▸ hlength⟩

theorem fit_reference (hcheck : registry.check = .ok ()) (visited : List PoolKey) (ref : Reference)
    (n : Nat) (state : ExpandState) (href : ref.check registry = .ok ())
    (hweighs : registry.Weighs (.content (.reference ref)) n) (hlimit : n ≤ limit)
    (hopen : registry.Open .counted visited (.content (.reference ref)))
    (hstate : registry.Weighed state) :
    Succeeds (registry.expandReference limit visited ref) state (registry.AtMost n) := by
  -- Each pool that is entered leaves fewer pools that can still be entered.
  induction hfresh : registry.freshPools visited using Nat.strongRecOn
    generalizing visited ref n state with
  | ind fresh ih =>
    subst hfresh
    obtain ⟨target, htarget, -, hargument⟩ := Reference.check_iff.mp href
    have hregistered := get?_key htarget
    rw [expandReference]
    split
    · next hnone => simp [htarget] at hnone
    next other hother =>
    obtain rfl := Option.some.inj (htarget.symm.trans hother)
    cases hweighs with
    | @reference _ _ n hother hinclude hpool =>
      obtain rfl := Option.some.inj (htarget.symm.trans hother)
      have hwithin := hopen.target htarget hinclude
      rw [if_pos hinclude]
      refine (fit_pool hregistered hargument (fun rules hrules hfresh rule hrule m state => ?_)
        hpool (Nat.le_trans (Modifiers.le_weight hinclude n) hlimit) hwithin hstate).bind
        fun base _ hbase => ?_
      · have hless := registry.freshPools_cons_lt htarget hrules hfresh
        have hvalid := Rule.checkAll_iff.mp (checkAll_of_rulesFor hcheck hregistered hrules) rule
          hrule
        have hrules := (hwithin.rules hregistered hrules).of_meets fun _ => .rules hrule
        intro hm hlimit hstate
        exact fit_rule (fun inner n state hinner hn hlimit hopen hstate =>
          ih _ hless _ inner n state hinner hn hlimit hopen hstate rfl) rule m state hvalid hm
          hlimit hrules hstate
      · refine Modifiers.expand_ends fun _ hgrows _ => ⟨?_, hbase.2.of_cache_eq hgrows.cache⟩
        exact Nat.le_trans (Modifiers.length_alternatives_le _) (Modifiers.weight_mono hbase.1)
    | skippedReference hskipped =>
      rw [if_neg (by simp [hskipped])]
      exact ends_bind.mpr (Modifiers.expand_ends fun _ hgrows _ =>
        ⟨Modifiers.length_alternatives_le _, hstate.of_cache_eq hgrows.cache⟩)

/-- In a valid template, a pool whose weight is within the limit has no more examples than it
weighs. -/
theorem Weighs.examplesOf_succeeds {definition : Definition} {variation argument : Option String}
    {n : Nat} (hweighs : registry.Weighs (.pool definition variation argument) n)
    (hcheck : registry.check = .ok ())
    (hdefinition : registry.get? definition.key = some definition)
    (hargument : definition.argumentName.isSome → argument.isSome) (hlimit : n ≤ limit) :
    Succeeds (registry.examplesOf limit definition variation argument) {}
      fun examples _ => examples.length ≤ n := by
  have hopen : registry.Open .counted [] (.pool definition variation argument) :=
    fun pool hpool => ⟨hweighs.acc pool hpool, by simp⟩
  have hexpand : Succeeds (registry.expandUnit limit definition variation argument) {}
      (registry.AtMost n) := by
    refine fit_pool hdefinition hargument (fun rules hrules _ rule hrule m state hm hlimit hstate =>
      ?_) hweighs hlimit hopen caches_empty
    exact fit_rule (fit_reference hcheck _) rule m state
      (Rule.checkAll_iff.mp (checkAll_of_rulesFor hcheck hdefinition hrules) rule hrule) hm hlimit
      ((hopen.rules hdefinition hrules).of_meets fun _ => .rules hrule) hstate
  refine hexpand.bind fun all state hall => ends_pure.mpr ?_
  refine Nat.le_trans (length_distinct_le _) ?_
  rw [List.length_map]
  exact hall.1

/-- In a valid template, all examples of a unit are found if their count is within the limit,
whatever was counted before with the same memo. -/
theorem examplesOf_eq_ok_of_count_le {definition : Definition} {memo : CountMemo} {n : UInt64}
    (hcheck : registry.check = .ok ())
    (hdefinition : registry.get? definition.key = some definition)
    (hargument : definition.argumentName = none) (hmemo : registry.Counted memo)
    (hcount : ((registry.countUnit definition none).run memo).1 = .ok (.finite n))
    (hlimit : n.toNat ≤ limit) :
    ∃ examples state, (registry.examplesOf limit definition none none).run {} =
      (.ok examples, state) := by
  have hweighs : registry.Weighs (.pool definition none none) n.toNat :=
    weighs_of_countUnit hcheck hdefinition hmemo hcount
  obtain ⟨examples, state, hrun, -⟩ := (hweighs.examplesOf_succeeds hcheck hdefinition
    (by simp [hargument]) hlimit).exists_run
  exact ⟨examples, state, hrun⟩

end Registry

/-! A template in which two contents depend on one key, and one on its opposite. One of its units
refers to itself; the intent has nothing to do with that unit. -/

namespace Courtesy

def plea : Definition := { key := ⟨.shared, "plea"⟩, rules := [{ contents := [.word "please "] }] }

def echo : Definition where
  key := ⟨.shared, "echo"⟩
  rules := [{ contents := [.word "o"] },
    { contents := [.word "o", .reference { target := ⟨.shared, "echo"⟩ }] }]

def ask : Definition where
  key := ⟨.intent, "ask"⟩
  rules := [{ contents := [
    .reference { target := plea.key, modifiers := .optional "polite" 50 },
    .word "help",
    .wordGroup " thanks" (.optional "polite" 50),
    .wordGroup " now" { Modifiers.optional "polite" 50 with randomOpposite := true }] }]

def phrasebook : Registry := (Registry.ofUnits [plea, echo, ask]).toOption.getD .empty

theorem get?_ask : phrasebook.get? ask.key = some ask := by rfl

theorem check_phrasebook : phrasebook.check = .ok () := by decide +kernel

/-- The intent has examples although the unit that refers to itself was counted, as unbounded,
before. -/
theorem examplesOf_ask_of_count : ∃ examples state,
    (phrasebook.examplesOf 8 ask none none).run {} = (.ok examples, state) := by
  have hmemo : phrasebook.Counted ((phrasebook.countUnit echo none).run ∅).2 :=
    .unit none .start fun _ hother => Option.some.inj (hother.symm.trans (by rfl))
  have hcount : ((phrasebook.countUnit ask none).run ((phrasebook.countUnit echo none).run ∅).2).1 =
      .ok (.finite 8) := by decide +kernel
  exact Registry.examplesOf_eq_ok_of_count_le check_phrasebook get?_ask rfl hmemo hcount (by decide)

theorem exists_examples_ask : ∃ examples state,
    (phrasebook.examplesOf 8 ask none none).run {} = (.ok examples, state) := by
  have hcount : ((phrasebook.countUnit ask none).run ∅).1 = .ok (.finite 8) := by decide +kernel
  have hweighs : phrasebook.Weighs (.pool ask none none) 8 :=
    Registry.weighs_of_countUnit check_phrasebook get?_ask .start hcount
  obtain ⟨examples, state, hrun, -⟩ := (hweighs.examplesOf_succeeds check_phrasebook get?_ask
    nofun (Nat.le_refl 8)).exists_run
  exact ⟨examples, state, hrun⟩

end Courtesy

end Phrasebook
