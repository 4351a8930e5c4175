import Phrasebook.Counting
import Phrasebook.Proofs.Ends
import Phrasebook.Proofs.Nesting
import Phrasebook.Proofs.Validity

/-! What counting keeps. A relation between phrases and counts that each step of counting keeps holds
of every count that is given, and of every count in the memo, whatever was counted before. Only a pool
that is met inside itself has a count, unbounded, that does not come from the counts of its rules.
Counting a phrase that is valid never fails. -/

namespace Phrasebook

open Std Relation

/-- What counting looks into: every choice, whether it may be there or not, but only references that
may be there. -/
def Route.entered : Route where
  Enters _ := True
  Follows modifiers := modifiers.canInclude = true
  Passes _ := True

namespace Registry

/-- The phrase stands in a template that passed its check. -/
def Valid (registry : Registry) (phrase : Phrase) : Prop :=
  registry.check = .ok () ∧
    match phrase with
    | .content content => ∃ owner, content.check registry owner = .ok ()
    | .contents contents => ∃ owner, Content.checkAll registry owner contents = .ok ()
    | .branches branches => ∃ owner, Rule.checkAll registry owner branches = .ok ()
    | .rules _ _ rules => ∃ owner, Rule.checkAll registry owner rules = .ok ()
    | .pool definition variation _ => registry.get? definition.key = some definition ∧
        ∃ rules, definition.rulesFor variation = .ok rules

/-- Each visited pool of the template uses the pools that the phrase meets. -/
def Inside (registry : Registry) (visited : List PoolKey) (phrase : Phrase) : Prop :=
  ∀ pool, registry.Meets .entered phrase pool → ∀ user ∈ visited, (registry.get? user.unit).isSome →
    TransGen (registry.Uses .entered) pool user

/-- Each step of counting keeps the relation. -/
structure KeptByCounting (registry : Registry) (fits : Phrase → Possibilities → Prop) : Prop where
  word (text : String) : fits (.content (.word text)) 1
  wordGroup (text : String) (modifiers : Modifiers) :
    fits (.content (.wordGroup text modifiers)) (modifiers.weigh 1)
  choice {branches : List Rule} {modifiers : Modifiers} {total : Possibilities} :
    fits (.branches branches) total →
    fits (.content (.choice branches modifiers)) (modifiers.weigh total)
  /-- A reference that can never be there is not counted, so that nothing is known of its pool. -/
  reference {ref : Reference} {target : Definition} {total : Possibilities} :
    registry.get? ref.target = some target →
    (ref.modifiers.canInclude = true →
      fits (.pool target ref.variation ref.modifiers.argumentValue) total) →
    fits (.content (.reference ref)) (ref.modifiers.weigh total)
  nil : fits (.contents []) 1
  cons {content : Content} {rest : List Content} {first behind : Possibilities} :
    fits (.content content) first → fits (.contents rest) behind →
    fits (.contents (content :: rest)) (first * behind)
  noBranch : fits (.branches []) 0
  branch {branch : Rule} {rest : List Rule} {first behind : Possibilities} :
    fits (.contents branch.contents) first → fits (.branches rest) behind →
    fits (.branches (branch :: rest)) (first + behind)
  pool {definition : Definition} {variation argument : Option String} {rules : List Rule}
    {total : Possibilities} :
    definition.rulesFor variation = .ok rules → fits (.branches rules) total →
    fits (.pool definition variation argument) (total.doubledIf definition.varyCase)
  again {definition : Definition} {variation argument : Option String} :
    registry.get? definition.key = some definition →
    TransGen (registry.Uses .entered) ⟨definition.key, variation⟩ ⟨definition.key, variation⟩ →
    fits (.pool definition variation argument) .unbounded

/-- The pool has rules, and the relation holds of its count for every value of its argument. -/
structure FitsPool (fits : Phrase → Possibilities → Prop) (definition : Definition)
    (variation : Option String) (count : Possibilities) : Prop where
  exists_rules : ∃ rules, definition.rulesFor variation = .ok rules
  fits (argument : Option String) : fits (.pool definition variation argument) count

/-- The relation holds of every count in the memo, if the template has the pool. -/
def Tallied (registry : Registry) (fits : Phrase → Possibilities → Prop) (memo : CountMemo) : Prop :=
  ∀ (pool : PoolKey) (count : Possibilities), memo[pool]? = some count →
    ∀ definition, registry.get? pool.unit = some definition →
      FitsPool fits definition pool.variation count

/-- However it ends, counting a phrase keeps the relation; it only fails if the phrase is not valid. -/
abbrev Tallies (registry : Registry) (fits : Phrase → Possibilities → Prop) (phrase : Phrase)
    (count : CountM Possibilities) (memo : CountMemo) : Prop :=
  Ends count memo (fun total memo' => fits phrase total ∧ registry.Tallied fits memo')
    fun _ memo' => ¬registry.Valid phrase ∧ registry.Tallied fits memo'

/-- Counting a phrase keeps the relation with every memo that it holds of. -/
def Counts (registry : Registry) (fits : Phrase → Possibilities → Prop) (phrase : Phrase)
    (count : CountM Possibilities) : Prop :=
  ∀ memo, registry.Tallied fits memo → registry.Tallies fits phrase count memo

variable {registry : Registry} {fits : Phrase → Possibilities → Prop}

namespace Valid

theorem choice {branches : List Rule} {modifiers : Modifiers}
    (h : registry.Valid (.content (.choice branches modifiers))) :
    branches ≠ [] ∧ registry.Valid (.branches branches) := by
  obtain ⟨hcheck, owner, hcontent⟩ := h
  obtain ⟨-, hne, hbranches⟩ := Content.check_choice_iff.mp hcontent
  exact ⟨hne, hcheck, owner, hbranches⟩

theorem reference {ref : Reference} (h : registry.Valid (.content (.reference ref))) :
    ∃ target, registry.get? ref.target = some target ∧
      registry.Valid (.pool target ref.variation ref.modifiers.argumentValue) := by
  obtain ⟨hcheck, owner, hcontent⟩ := h
  obtain ⟨-, href⟩ := Content.check_reference_iff.mp hcontent
  obtain ⟨target, htarget, hvariation, -⟩ := Reference.check_iff.mp href
  have hpools := (Definition.check_iff.mp (Registry.check_iff.mp hcheck _ _ htarget)).1
  exact ⟨target, htarget, hcheck, get?_key htarget, Definition.rulesFor_eq_ok hvariation hpools⟩

theorem cons {content : Content} {rest : List Content}
    (h : registry.Valid (.contents (content :: rest))) :
    registry.Valid (.content content) ∧ registry.Valid (.contents rest) := by
  obtain ⟨hcheck, owner, hall⟩ := h
  obtain ⟨hcontent, hrest⟩ := Content.checkAll_cons_iff.mp hall
  exact ⟨⟨hcheck, owner, hcontent⟩, hcheck, owner, hrest⟩

theorem branch {branch : Rule} {rest : List Rule}
    (h : registry.Valid (.branches (branch :: rest))) :
    registry.Valid (.contents branch.contents) ∧ registry.Valid (.branches rest) := by
  obtain ⟨hcheck, owner, hall⟩ := h
  obtain ⟨hbranch, hrest⟩ := List.forall_mem_cons.mp (Rule.checkAll_iff.mp hall)
  exact ⟨⟨hcheck, owner, hbranch⟩, hcheck, owner, Rule.checkAll_iff.mpr hrest⟩

theorem pool {definition : Definition} {variation argument : Option String} {rules : List Rule}
    (h : registry.Valid (.pool definition variation argument))
    (hrules : definition.rulesFor variation = .ok rules) : registry.Valid (.branches rules) :=
  ⟨h.1, definition.key, checkAll_of_rulesFor h.1 h.2.1 hrules⟩

end Valid

/-- A pool that uses another one has rules. -/
theorem Uses.exists_rules {definition : Definition} {variation : Option String} {used : PoolKey}
    {route : Route} (hdefinition : registry.get? definition.key = some definition)
    (h : TransGen (registry.Uses route) used ⟨definition.key, variation⟩) :
    ∃ rules, definition.rulesFor variation = .ok rules := by
  obtain ⟨_, other, rules, hother, hrules, -⟩ :
      ∃ between, registry.Uses route between ⟨definition.key, variation⟩ := by
    cases h with
    | single huses => exact ⟨_, huses⟩
    | tail _ huses => exact ⟨_, huses⟩
  obtain rfl := Option.some.inj (hdefinition.symm.trans hother)
  exact ⟨rules, hrules⟩

namespace Inside

variable {visited : List PoolKey} {phrase other : Phrase}

theorem of_meets (h : registry.Inside visited phrase)
    (hmeets : ∀ pool, registry.Meets .entered other pool → registry.Meets .entered phrase pool) :
    registry.Inside visited other :=
  fun pool hpool => h pool (hmeets pool hpool)

theorem nil : registry.Inside [] phrase := by
  intro pool _ user hmem
  simp at hmem

theorem target {ref : Reference} {target : Definition}
    (h : registry.Inside visited (.content (.reference ref)))
    (htarget : registry.get? ref.target = some target) (hinclude : ref.modifiers.canInclude = true)
    (argument : Option String) : registry.Inside visited (.pool target ref.variation argument) :=
  h.of_meets fun _ hpool => Meets.of_pool hpool ▸ .reference htarget hinclude

variable {definition : Definition} {variation argument : Option String}

/-- A visited pool that is met again uses itself. -/
theorem uses_self (h : registry.Inside visited (.pool definition variation argument))
    (hdefinition : registry.get? definition.key = some definition)
    (hmem : ⟨definition.key, variation⟩ ∈ visited) :
    TransGen (registry.Uses .entered) ⟨definition.key, variation⟩ ⟨definition.key, variation⟩ :=
  h _ (.pool hdefinition) _ hmem (Option.isSome_of_mem hdefinition)

/-- The rules of a unit that does not take the place of another are inside its pool. -/
theorem rules {rules : List Rule}
    (h : registry.Inside visited (.pool definition variation argument))
    (hown : ∀ other, registry.get? definition.key = some other → other = definition)
    (hvisited : visited ≠ [] → registry.get? definition.key = some definition)
    (hrules : definition.rulesFor variation = .ok rules) :
    registry.Inside (⟨definition.key, variation⟩ :: visited) (.branches rules) := by
  intro pool hpool user hmem huser
  have huses (hdefinition : registry.get? definition.key = some definition) :
      registry.Uses .entered pool ⟨definition.key, variation⟩ :=
    ⟨definition, rules, hdefinition, hrules, Meets.branches_iff.mp hpool⟩
  rcases List.mem_cons.mp hmem with rfl | hmem
  · obtain ⟨other, hother⟩ := Option.isSome_iff_exists.mp huser
    exact .single (huses (hown other hother ▸ hother))
  · have hdefinition := hvisited (List.ne_nil_of_mem hmem)
    exact (TransGen.single (huses hdefinition)).trans (h _ (.pool hdefinition) user hmem huser)

end Inside

theorem tallied_empty : registry.Tallied fits ∅ := by
  intro pool count h
  simp at h

theorem Tallied.insert {memo : CountMemo} (hmemo : registry.Tallied fits memo)
    {definition : Definition} {variation : Option String} {count : Possibilities}
    (hcount : ∀ other, registry.get? definition.key = some other →
      FitsPool fits other variation count) :
    registry.Tallied fits (memo.insert ⟨definition.key, variation⟩ count) := by
  intro pool found hfound
  rw [ExtTreeMap.getElem?_insert] at hfound
  split at hfound
  · next heq =>
    obtain rfl := LawfulEqOrd.eq_of_compare heq
    obtain rfl := Option.some.inj hfound
    exact hcount
  · exact hmemo pool found hfound

theorem Counts.bind {phrase part : Phrase} {count : CountM Possibilities}
    {next : Possibilities → CountM Possibilities} {memo : CountMemo}
    (h : registry.Counts fits part count) (hmemo : registry.Tallied fits memo)
    (hvalid : registry.Valid phrase → registry.Valid part)
    (hnext : ∀ total memo', fits part total → registry.Tallied fits memo' →
      registry.Tallies fits phrase (next total) memo') :
    registry.Tallies fits phrase (count >>= next) memo := by
  have hpart : Ends count memo (fun total memo' => fits part total ∧ registry.Tallied fits memo')
      fun _ memo' => ¬registry.Valid phrase ∧ registry.Tallied fits memo' :=
    (h memo hmemo).mono (fun _ _ h => h) fun _ _ h => ⟨mt hvalid h.1, h.2⟩
  exact hpart.bind fun total memo' htotal => hnext total memo' htotal.1 htotal.2

section Contents

/-- A reference inside the pools being counted is counted. -/
def CountsReferences (registry : Registry) (fits : Phrase → Possibilities → Prop)
    (visited : List PoolKey) (countReference : Reference → CountM Possibilities) : Prop :=
  ∀ ref, registry.Inside visited (.content (.reference ref)) →
    registry.Counts fits (.content (.reference ref)) (ref.modifiers.weigh <$> countReference ref)

variable {countReference : Reference → CountM Possibilities} {visited : List PoolKey}

mutual

theorem count_content (hkept : registry.KeptByCounting fits)
    (hreference : registry.CountsReferences fits visited countReference) :
    (content : Content) → registry.Inside visited (.content content) →
    registry.Counts fits (.content content) (content.count countReference)
  | .word text, _ => fun memo hmemo => ⟨hkept.word text, hmemo⟩
  | .wordGroup text modifiers, _ => fun memo hmemo => ⟨hkept.wordGroup text modifiers, hmemo⟩
  | .choice branches modifiers, hinside => fun memo hmemo => by
    have hbranches := count_branches hkept hreference branches
      (hinside.of_meets fun _ => .choice trivial)
    refine hbranches.bind hmemo (fun h => h.choice.2) fun total memo' htotal hmemo' => ?_
    exact ends_pure.mpr ⟨hkept.choice htotal, hmemo'⟩
  | .reference ref, hinside => hreference ref hinside

theorem count_contents (hkept : registry.KeptByCounting fits)
    (hreference : registry.CountsReferences fits visited countReference) :
    (all : List Content) → registry.Inside visited (.contents all) →
    registry.Counts fits (.contents all) (Content.countAll countReference all)
  | [], _ => fun memo hmemo => ⟨hkept.nil, hmemo⟩
  | content :: rest, hinside => fun memo hmemo => by
    have hfirst := count_content hkept hreference content (hinside.of_meets fun _ => .head trivial)
    have hrest := count_contents hkept hreference rest
      (hinside.of_meets fun _ => .cons fun _ _ => trivial)
    refine hfirst.bind hmemo (fun h => h.cons.1) fun first memo' hfirst hmemo' => ?_
    refine hrest.bind hmemo' (fun h => h.cons.2) fun behind memo'' hbehind hmemo'' => ?_
    exact ends_pure.mpr ⟨hkept.cons hfirst hbehind, hmemo''⟩

theorem count_rule (hkept : registry.KeptByCounting fits)
    (hreference : registry.CountsReferences fits visited countReference) :
    (rule : Rule) → registry.Inside visited (.contents rule.contents) →
    registry.Counts fits (.contents rule.contents) (rule.count countReference)
  | { contents, .. }, hinside => count_contents hkept hreference contents hinside

theorem count_branches (hkept : registry.KeptByCounting fits)
    (hreference : registry.CountsReferences fits visited countReference) :
    (branches : List Rule) → registry.Inside visited (.branches branches) →
    registry.Counts fits (.branches branches) (Rule.countAll countReference branches)
  | [], _ => fun memo hmemo => ⟨hkept.noBranch, hmemo⟩
  | branch :: rest, hinside => fun memo hmemo => by
    have hfirst := count_rule hkept hreference branch
      (hinside.of_meets fun _ => .branches List.mem_cons_self)
    have hrest := count_branches hkept hreference rest (hinside.of_meets fun pool hpool => by
      obtain ⟨other, hother, hmeets⟩ := Meets.branches_iff.mp hpool
      exact .branches (List.mem_cons_of_mem _ hother) hmeets)
    refine hfirst.bind hmemo (fun h => h.branch.1) fun first memo' hfirst hmemo' => ?_
    refine hrest.bind hmemo' (fun h => h.branch.2) fun behind memo'' hbehind hmemo'' => ?_
    exact ends_pure.mpr ⟨hkept.branch hfirst hbehind, hmemo''⟩

end

end Contents

/-- A pool of the template is counted as its rules are, unless it is counted already or in the memo.
A pool of another unit leaves nothing behind that is looked at, unless it takes the place of one. -/
theorem count_pool (hkept : registry.KeptByCounting fits) {definition : Definition}
    {variation argument : Option String} {visiting : List PoolKey}
    {countRules : (rules : List Rule) → definition.rulesFor variation = .ok rules →
      ⟨definition.key, variation⟩ ∉ visiting → CountM Possibilities}
    (hown : ∀ other, registry.get? definition.key = some other → other = definition)
    (hinside : registry.Inside visiting (.pool definition variation argument))
    (hcount : ∀ rules hrules hfresh,
      registry.Counts fits (.branches rules) (countRules rules hrules hfresh)) {memo : CountMemo}
    (hmemo : registry.Tallied fits memo) :
    Ends (definition.countPool variation visiting countRules) memo
      (fun total memo' => (registry.get? definition.key = some definition →
        FitsPool fits definition variation total) ∧ registry.Tallied fits memo')
      fun _ memo' =>
        ¬registry.Valid (.pool definition variation argument) ∧ registry.Tallied fits memo' := by
  unfold Definition.countPool
  refine ends_bind.mpr (ends_get.mpr ?_)
  split
  · next count hfound =>
    exact ⟨hmemo _ count hfound definition, hmemo⟩
  split
  · next hfresh =>
    split
    · next error hrules =>
      refine ⟨fun hvalid => ?_, hmemo⟩
      obtain ⟨-, -, rules, hother⟩ := hvalid
      simp [hrules] at hother
    · next rules hrules =>
      have hbranches : Ends (countRules rules hrules hfresh) memo
          (fun total memo' => fits (.branches rules) total ∧ registry.Tallied fits memo')
          fun _ memo' => ¬registry.Valid (.pool definition variation argument) ∧
            registry.Tallied fits memo' :=
        (hcount rules hrules hfresh memo hmemo).mono (fun _ _ h => h)
          fun _ _ h => ⟨mt (Valid.pool · hrules) h.1, h.2⟩
      refine hbranches.bind fun total memo' ⟨htotal, hmemo'⟩ => ?_
      have hfits : FitsPool fits definition variation (total.doubledIf definition.varyCase) :=
        ⟨⟨rules, hrules⟩, fun _ => hkept.pool hrules htotal⟩
      refine ⟨fun _ => hfits, hmemo'.insert fun other hother => ?_⟩
      obtain rfl := hown other hother
      exact hfits
  · next hvisited =>
    refine ⟨fun hdefinition => ?_, hmemo⟩
    have hself := hinside.uses_self hdefinition (Decidable.not_not.mp hvisited)
    exact ⟨Uses.exists_rules hdefinition hself, fun _ => hkept.again hdefinition hself⟩

theorem count_reference (hkept : registry.KeptByCounting fits) (visiting : List PoolKey)
    (ref : Reference) (hinside : registry.Inside visiting (.content (.reference ref))) :
    registry.Counts fits (.content (.reference ref))
      (ref.modifiers.weigh <$> registry.countReference visiting ref) := by
  -- Each pool that is entered leaves fewer pools that can still be entered.
  induction hroom : registry.freshPools visiting using Nat.strongRecOn
    generalizing visiting ref with
  | ind room ih =>
    intro memo hmemo
    rw [← bind_pure_comp]
    unfold countReference
    split
    · next hnone =>
      refine ends_bind.mpr ⟨fun hvalid => ?_, hmemo⟩
      obtain ⟨target, htarget, -⟩ := hvalid.reference
      simp [hnone] at htarget
    next target htarget =>
    have hregistered := get?_key htarget
    split
    · next hinclude =>
      have hown (other : Definition) (hother : registry.get? target.key = some other) :
          other = target := Option.some.inj (hother.symm.trans hregistered)
      have hvalid (h : registry.Valid (.content (.reference ref))) :
          registry.Valid (.pool target ref.variation ref.modifiers.argumentValue) := by
        obtain ⟨other, hother, hvalid⟩ := h.reference
        exact Option.some.inj (htarget.symm.trans hother) ▸ hvalid
      have hpool := hinside.target htarget hinclude ref.modifiers.argumentValue
      have hbase := count_pool hkept hown hpool (fun rules hrules hfresh => by
        have hlt := registry.freshPools_cons_lt htarget hrules hfresh
        exact count_branches hkept (fun inner hinner => ih _ (hroom ▸ hlt) _ inner hinner rfl)
          rules (hpool.rules hown (fun _ => hregistered) hrules)) hmemo
      refine (hbase.mono (fun _ _ h => h) fun _ _ h => ⟨mt hvalid h.1, h.2⟩).bind
        fun total memo' htotal => ?_
      exact ⟨hkept.reference htarget fun _ => (htotal.1 hregistered).fits _, htotal.2⟩
    · next hskipped =>
      exact ⟨hkept.reference htarget fun hinclude => (hskipped hinclude).elim, hmemo⟩

theorem count_unit (hkept : registry.KeptByCounting fits) {definition : Definition}
    (hown : ∀ other, registry.get? definition.key = some other → other = definition)
    (variation argument : Option String) {memo : CountMemo} (hmemo : registry.Tallied fits memo) :
    Ends (registry.countUnit definition variation) memo
      (fun total memo' => (registry.get? definition.key = some definition →
        FitsPool fits definition variation total) ∧ registry.Tallied fits memo')
      fun _ memo' =>
        ¬registry.Valid (.pool definition variation argument) ∧ registry.Tallied fits memo' := by
  have hpool : registry.Inside [] (.pool definition variation argument) := .nil
  exact count_pool hkept hown hpool (fun rules hrules _ => count_branches hkept
    (count_reference hkept _) rules (hpool.rules hown (by simp) hrules)) hmemo

/-- The memos that queries can leave behind, one after the other and whether they succeed or fail:
for any rules, any contents, and any pools of units that do not take the place of other units of the
template. -/
inductive Counted (registry : Registry) : CountMemo → Prop
  | start : Counted registry ∅
  | unit {memo : CountMemo} {definition : Definition} (variation : Option String) :
      Counted registry memo →
      (∀ other, registry.get? definition.key = some other → other = definition) →
      Counted registry ((registry.countUnit definition variation).run memo).2
  | rule {memo : CountMemo} (rule : Rule) : Counted registry memo →
      Counted registry ((rule.count (registry.countReference [])).run memo).2
  | content {memo : CountMemo} (content : Content) : Counted registry memo →
      Counted registry ((content.count (registry.countReference [])).run memo).2

/-- No history of queries puts a count into the memo that the relation does not hold of. -/
theorem Counted.tallied {memo : CountMemo} (h : registry.Counted memo)
    (hkept : registry.KeptByCounting fits) : registry.Tallied fits memo := by
  have hreference := registry.count_reference hkept []
  induction h with
  | start => exact tallied_empty
  | unit variation _ hown ih =>
    exact ((count_unit hkept hown variation none ih).mono (fun _ _ h => h.2) fun _ _ h => h.2).state
  | rule rule _ ih =>
    exact ((count_rule hkept hreference rule .nil _ ih).mono
      (fun _ _ h => h.2) fun _ _ h => h.2).state
  | content content _ ih =>
    exact ((count_content hkept hreference content .nil _ ih).mono
      (fun _ _ h => h.2) fun _ _ h => h.2).state

/-- Whatever was counted before, the relation holds of the count that a unit of the template has. -/
theorem Counted.fitsPool {memo : CountMemo} (h : registry.Counted memo)
    (hkept : registry.KeptByCounting fits) {definition : Definition}
    (hdefinition : registry.get? definition.key = some definition) {variation : Option String}
    {count : Possibilities}
    (hcount : ((registry.countUnit definition variation).run memo).1 = .ok count) :
    FitsPool fits definition variation count := by
  have hown (other : Definition) (hother : registry.get? definition.key = some other) :
      other = definition := Option.some.inj (hother.symm.trans hdefinition)
  have hunit := count_unit hkept hown variation none (h.tallied hkept)
  exact (hunit.of_run_ok (Prod.ext hcount rfl)).1 hdefinition

end Registry

end Phrasebook
