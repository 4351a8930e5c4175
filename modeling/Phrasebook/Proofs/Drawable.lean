import Phrasebook.Proofs.Reached
import Phrasebook.Proofs.Scripts

/-! Examples that are enumerated can be drawn. The choices behind an example are read off its
derivation, and its decisions are those of the assignment that it is derived under. What remains is
the limit on depth: an expansion that ends has no pool inside itself, so that a derivation enters no
more pools at a time than there are. -/

namespace Phrasebook

open Relation

/-- The contents that an example derived under the assignment can run through. -/
def Registry.route (registry : Registry) (s : String → Bool) : Route where
  Enters modifiers := modifiers.Admits s true
  Passes past := ∃ e, registry.Derives (Modifiers.Admits s) (.contents past) e

theorem Registry.Expands.acc {registry : Registry} {limit : Nat} {table : Synonyms}
    {phrase : Phrase} {all : List Expansion} (h : registry.Expands limit table phrase all)
    (s : String → Bool) :
    ∀ pool, registry.Meets (registry.route s) phrase pool →
      Acc (registry.Uses (registry.route s)) pool :=
  h.acc_of_route (fun _ hpresent => (Modifiers.admits_true_iff.mp hpresent).1)
    (fun _ hpresent => (Modifiers.admits_true_iff.mp hpresent).1) fun _ ⟨e, he⟩ => ⟨s, e, he⟩

/-- An example can be drawn for a phrase, inside `depth` units of at most `maxDepth`. -/
def Registry.CanDraw (registry : Registry) (maxDepth depth : Nat) (s : String → Bool) :
    Phrase → Example → Prop
  | .content content, e => ∀ owner,
    Scripted s (content.draw (registry.drawReference (registry.drawUnit maxDepth depth)) owner) e
  | .contents all, e => ∀ owner before,
    Scripted s (Content.drawAll (registry.drawReference (registry.drawUnit maxDepth depth)) owner
      before all) (before.append e)
  | .branches branches, e => ∀ owner,
    Scripted s (SampleM.index branches.length >>=
      Rule.drawNth (registry.drawReference (registry.drawUnit maxDepth depth)) owner branches) e
  | .rules definition argument rules, e => ∃ rule ∈ rules, ∃ drawn,
    (∀ owner, Scripted s
      (rule.draw (registry.drawReference (registry.drawUnit maxDepth depth)) owner) drawn) ∧
    ∃ variant ∈ drawn.caseVariants definition.varyCase,
      definition.finish rule argument variant = .ok e
  | .pool definition variation argument, e => registry.get? definition.key = some definition →
    Scripted s (registry.drawUnit maxDepth depth definition variation argument) e

namespace Registry

variable {registry : Registry} {maxDepth : Nat} {s : String → Bool}

theorem scripted_rule {rule : Rule} {drawReference : Reference → SampleM Script Example}
    {owner : UnitKey} {e : Example}
    (h : Scripted s (Content.drawAll drawReference owner {} rule.contents) (Example.append {} e)) :
    Scripted s (rule.draw drawReference owner) e := by
  cases rule with
  | mk contents slotValue =>
    unfold Rule.draw
    rwa [Example.empty_append] at h

theorem scripted_nth {branches : List Rule} {branch : Rule} {place : Nat}
    {drawReference : Reference → SampleM Script Example} {owner : UnitKey} {e : Example}
    (hbranch : branches[place]? = some branch)
    (h : Scripted s (branch.draw drawReference owner) e) :
    Scripted s (Rule.drawNth drawReference owner branches place) e := by
  induction branches generalizing place with
  | nil => simp at hbranch
  | cons first rest ih =>
    cases place with
    | zero =>
      obtain rfl := Option.some.inj hbranch
      exact h
    | succ place => exact ih hbranch

/-- What is derived from an open phrase can be drawn, if the pools that are not visited fit below
the limit on depth. -/
theorem Derives.canDraw {phrase : Phrase} {e : Example}
    (h : registry.Derives (Modifiers.Admits s) phrase e) {depth : Nat} {visited : List PoolKey}
    (hopen : registry.Open (registry.route s) visited phrase)
    (hroom : depth + registry.freshPools visited ≤ maxDepth) :
    registry.CanDraw maxDepth depth s phrase e := by
  induction h generalizing depth visited with
  | word text => exact fun _ => .pure _
  | wordGroup hpresent hform => exact fun _ => .drawPresent hpresent (.pure _) hform
  | choice hpresent _ hform ih =>
    have hbranches := ih (hopen.of_meets fun _ => .choice hpresent) hroom
    exact fun owner => .drawPresent hpresent (hbranches owner) hform
  | @reference ref target e form htarget hpresent _ hform ih =>
    have hpool := ih (hopen.target htarget hpresent) hroom (get?_key htarget)
    intro owner
    unfold Content.draw drawReference
    rw [htarget]
    exact .drawPresent hpresent hpool hform
  | @absent content modifiers hmodifiers hresolves habsent =>
    intro owner
    cases content with
    | word text => cases hmodifiers
    | wordGroup text own | choice branches own =>
      obtain rfl := Option.some.inj hmodifiers
      exact .drawAbsent habsent
    | reference ref =>
      obtain rfl := Option.some.inj hmodifiers
      obtain ⟨target, htarget⟩ := Option.isSome_iff_exists.mp hresolves
      unfold Content.draw drawReference
      rw [htarget]
      exact .drawAbsent habsent
  | nil =>
    intro owner before
    rw [Example.append_empty]
    exact .pure before
  | cons hfirst _ ihfirst ihsecond =>
    have hdraw := ihfirst (hopen.of_meets fun _ => .head ⟨{}, .nil⟩) hroom
    have hrest := ihsecond
      (hopen.of_meets fun _ => .cons fun _ ⟨second, hsecond⟩ => ⟨_, .cons hfirst hsecond⟩) hroom
    intro owner before
    rw [← Example.append_assoc]
    exact (hdraw owner).bind (hrest owner _)
  | branch hmem _ ih =>
    have hcontents := ih (hopen.of_meets fun _ => .branches hmem) hroom
    obtain ⟨place, hplace⟩ := List.getElem?_of_mem hmem
    obtain ⟨hlt, -⟩ := List.getElem?_eq_some_iff.mp hplace
    intro owner
    exact (Scripted.index hlt).bind (scripted_nth hplace (scripted_rule (hcontents owner {})))
  | rule hmem _ hvariant hfinish ih =>
    have hcontents := ih (hopen.of_meets fun _ => .rules hmem) hroom
    exact ⟨_, hmem, _, fun owner => scripted_rule (hcontents owner {}), _, hvariant, hfinish⟩
  | @pool definition variation argument rules e hrules _ ih =>
    intro hdefinition
    have hfresh := freshPools_cons_lt hdefinition hrules (hopen.not_mem_visited hdefinition)
    obtain ⟨rule, hmem, drawn, hdraw, variant, hvariant, hfinish⟩ :=
      @ih (depth + 1) _ (hopen.rules hdefinition hrules) (by omega)
    obtain ⟨place, hplace⟩ := List.getElem?_of_mem hmem
    obtain ⟨hlt, -⟩ := List.getElem?_eq_some_iff.mp hplace
    rw [drawUnit, dif_pos (by omega), hrules]
    refine (Scripted.index hlt).bind ?_
    simp only [hplace]
    refine (hdraw definition.key).bind ((Scripted.drawCase hvariant).bind ?_)
    simp only [hfinish]
    exact (Scripted.record _).bind (.pure _)

/-- Every example that is enumerated can be drawn if the limit on depth allows for all pools: some
choices lead to it, whatever choices stand behind them. -/
theorem exists_choices_of_mem_examplesOf {limit : Nat} {definition : Definition} {e : Example}
    {examples : List Example} {expandState : ExpandState}
    (hdefinition : registry.get? definition.key = some definition)
    (hexamples : (registry.examplesOf limit definition none none).run {} =
      (.ok examples, expandState))
    (hdepth : registry.pools.length ≤ maxDepth) (he : e ∈ examples) :
    ∃ choices, ∀ rest, ∃ state, (registry.drawUnit maxDepth 0 definition none none).run
      { source := Script.mk (choices ++ rest) } = (.ok e, state) ∧ state.source = ⟨rest⟩ := by
  obtain ⟨⟨all, hall, rfl⟩, -⟩ :=
    (registry.examplesOf_ends hdefinition caches_empty).of_run_ok hexamples
  obtain ⟨s, hderives⟩ := hall.mem_results_iff.mp he
  have hopen : registry.Open (registry.route s) [] (.pool definition none none) :=
    fun pool hpool => ⟨hall.acc s pool hpool, by simp⟩
  have hroom : 0 + registry.freshPools [] ≤ maxDepth := by
    have := List.countP_le_length (p := fun pool => !([] : List PoolKey).contains pool)
      (l := registry.pools)
    unfold freshPools
    omega
  obtain ⟨choices, decisions, synonyms, -, hrun⟩ :=
    hderives.canDraw hopen hroom hdefinition ∅ ∅ Decisions.obeyedBy_empty
  exact ⟨choices, fun rest => ⟨_, hrun rest, rfl⟩⟩

end Registry

namespace Courtesy

theorem exists_choices_help_now : ∃ choices, ∀ rest, ∃ state,
    (phrasebook.drawUnit 3 0 ask none none).run { source := Script.mk (choices ++ rest) } =
      (.ok (.ofText "help now"), state) ∧ state.source = ⟨rest⟩ := by
  obtain ⟨examples, state, hrun⟩ := exists_examples_ask
  obtain ⟨⟨all, hall, rfl⟩, -⟩ :=
    (phrasebook.examplesOf_ends get?_ask Registry.caches_empty).of_run_ok hrun
  exact Registry.exists_choices_of_mem_examplesOf get?_ask hrun (by decide +kernel)
    (hall.mem_results_iff.mpr ⟨_, derives_help_now⟩)

end Courtesy

end Phrasebook
