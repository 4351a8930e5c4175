import Phrasebook.Proofs.Capacity
import Phrasebook.Proofs.Expands
import Phrasebook.Proofs.Tallies

/-! Counts are upper bounds. A number that is counted bounds the list that a phrase expands to, whether
the template passed its check or not. Counting looks at all contents of a rule, expanding only as far
as there are alternatives; and a content that has none makes a count of nothing although the rest may
be unbounded. The bound holds because a list of contents multiplies whatever stands before it by no
more than its count. -/

namespace Phrasebook

open Std

namespace Expansion

@[simp] theorem pairs_nil (right : List Expansion) : pairs [] right = [] := rfl

end Expansion

theorem Definition.le_length_variants (definition : Definition) (all : List Expansion) :
    all.length ≤ (definition.variants all).length := by
  induction all with
  | nil => exact Nat.zero_le _
  | cons expansion rest ih =>
    have hpos := expansion.result.length_caseVariants_pos definition.varyCase
    have hvariants : (definition.variants (expansion :: rest)).length =
        (expansion.result.caseVariants definition.varyCase).length +
          (definition.variants rest).length := by
      simp [variants]
    rw [List.length_cons, hvariants]
    omega

namespace Registry

variable {registry : Registry} {limit : Nat} {table : Synonyms} {all : List Expansion}

/-! ### Lists of contents and of rules, taken apart -/

namespace Expands

theorem contents_nil (h : registry.Expands limit table (.contents []) all) : all = [{}] := by
  generalize hphrase : Phrase.contents [] = phrase at h
  induction h with
  | nil => rfl
  | concat _ _ _ => simp at hphrase
  | @stop past rest _ ih =>
    obtain ⟨rfl, -⟩ := List.append_eq_nil_iff.mp (Phrase.contents.inj hphrase).symm
    exact ih rfl
  | _ => cases hphrase

/-- The last content extends the alternatives of those before, if it is looked at. -/
theorem contents_concat {past : List Content} {content : Content}
    (h : registry.Expands limit table (.contents (past ++ [content])) all) :
    ∃ before, registry.Expands limit table (.contents past) before ∧
      (all = [] ∨ ∃ last, registry.Expands limit table (.content content) last ∧
        all = distinct (Expansion.pairs before last)) := by
  generalize hphrase : Phrase.contents (past ++ [content]) = phrase at h
  induction h with
  | nil => simp at hphrase
  | concat hbefore hlast _ =>
    obtain ⟨rfl, heq⟩ := List.append_inj' (Phrase.contents.inj hphrase) rfl
    obtain rfl := List.singleton_inj.mp heq
    exact ⟨_, hbefore, .inr ⟨_, hlast, rfl⟩⟩
  | @stop front rest hfront ih =>
    have heq := Phrase.contents.inj hphrase
    -- The list stopped before the last content, or at it.
    rcases List.eq_nil_or_concat rest with rfl | ⟨rest, last, rfl⟩
    · exact ih (by rw [heq, List.append_nil])
    · rw [List.concat_eq_append, ← List.append_assoc] at heq
      obtain ⟨rfl, -⟩ := List.append_inj' heq rfl
      exact ⟨[], .stop rest hfront, .inl rfl⟩
  | _ => cases hphrase

/-- What has no alternative has none behind it. -/
theorem contents_append {past rest : List Content}
    (h : registry.Expands limit table (.contents (past ++ rest)) all) :
    ∃ before, registry.Expands limit table (.contents past) before ∧ (before = [] → all = []) := by
  induction rest using List.reverseRecOn generalizing all with
  | nil => exact ⟨all, by rwa [List.append_nil] at h, id⟩
  | append_singleton rest content ih =>
    rw [← List.append_assoc] at h
    obtain ⟨mid, hmid, hall⟩ := h.contents_concat
    obtain ⟨before, hbefore, hempty⟩ := ih hmid
    refine ⟨before, hbefore, fun hnone => ?_⟩
    rcases hall with rfl | ⟨last, -, rfl⟩
    · rfl
    · rw [hempty hnone, Expansion.pairs_nil]
      exact List.length_eq_zero_iff.mp (Nat.le_zero.mp (length_distinct_le _))

theorem branches_nil (h : registry.Expands limit table (.branches []) all) : all = [] := by
  generalize hphrase : Phrase.branches [] = phrase at h
  cases h with
  | noBranch => rfl
  | branch _ _ _ => simp at hphrase
  | _ => cases hphrase

/-- The alternatives of branches are those of the first one and those of the rest. -/
theorem branches_cons {branch : Rule} {rest : List Rule}
    (h : registry.Expands limit table (.branches (branch :: rest)) all) :
    ∃ first behind, registry.Expands limit table (.contents branch.contents) first ∧
      registry.Expands limit table (.branches rest) behind ∧ all = first ++ behind := by
  generalize hphrase : Phrase.branches (branch :: rest) = phrase at h
  induction h generalizing rest with
  | noBranch => cases hphrase
  | @branch past last before all hbefore hlast hroom ih =>
    have heq := Phrase.branches.inj hphrase
    rcases List.cons_eq_append_iff.mp heq with ⟨rfl, heq⟩ | ⟨past, rfl, rfl⟩
    · obtain ⟨rfl, rfl⟩ := List.cons.inj heq
      exact ⟨all, [], hlast, .noBranch, by simp [hbefore.branches_nil]⟩
    · obtain ⟨first, behind, hfirst, hbehind, rfl⟩ := ih rfl
      refine ⟨first, behind ++ all, hfirst, .branch hbehind hlast ?_, List.append_assoc _ _ _⟩
      simp only [List.length_append] at hroom ⊢
      omega
  | _ => cases hphrase

/-- The rules of a unit expand as branches would, but for the cases of the unit's texts. -/
theorem rules_branches {definition : Definition} {argument : Option String} {rules : List Rule}
    (h : registry.Expands limit table (.rules definition argument rules) all) :
    ∃ bare, registry.Expands limit table (.branches rules) bare ∧ bare.length ≤ all.length ∧
      all.length ≤ doubledIf definition.varyCase bare.length := by
  generalize hphrase : Phrase.rules definition argument rules = phrase at h
  induction h generalizing rules with
  | noRule =>
    cases hphrase
    exact ⟨[], .noBranch, Nat.le_refl _, Nat.zero_le _⟩
  | @rule _ _ past rule before all finished hbefore hall hsome hfinished hroom ih =>
    cases hphrase
    obtain ⟨bare, hbare, hle, hdoubled⟩ := ih rfl
    have hvariants := definition.le_length_variants all
    have hcases := definition.length_variants_le all
    have hlength : finished.length = (definition.variants all).length := by
      refine hfinished ▸ List.filterMap_length_eq_length.mpr fun variant hvariant => ?_
      obtain ⟨done, hdone, -⟩ := hsome variant hvariant
      exact Option.isSome_of_mem hdone
    rw [List.length_append] at hroom
    refine ⟨bare ++ all, .branch hbare hall ?_, ?_, ?_⟩
    · rw [List.length_append]
      omega
    · simp only [List.length_append]
      omega
    · simp only [List.length_append, doubledIf_add]
      omega
  | _ => cases hphrase

end Expands

/-! ### Bounds -/

/-- The phrase expands to lists of at most so many items. Contents are bounded by what they make of
the alternatives before them: alone they may expand to more than the limit allows. -/
def HasAtMost (registry : Registry) (limit : Nat) (table : Synonyms) : Phrase → Nat → Prop
  | .contents contents, n => ∀ past all,
      registry.Expands limit table (.contents (past ++ contents)) all →
        ∃ before, registry.Expands limit table (.contents past) before ∧
          all.length ≤ before.length * n
  | phrase, n => ∀ all, registry.Expands limit table phrase all → all.length ≤ n

/-- If the count is a number, the phrase has no more alternatives. -/
def Bounds (registry : Registry) (limit : Nat) (table : Synonyms) (phrase : Phrase)
    (count : Possibilities) : Prop :=
  ∀ n, count = .finite n → registry.HasAtMost limit table phrase n.toNat

namespace HasAtMost

variable {content : Content} {rest : List Content} {m n : Nat}

theorem extended (h : registry.HasAtMost limit table (.content content) n) {past : List Content}
    (hall : registry.Expands limit table (.contents (past ++ [content])) all) :
    ∃ before, registry.Expands limit table (.contents past) before ∧
      all.length ≤ before.length * n := by
  obtain ⟨before, hbefore, hlast⟩ := hall.contents_concat
  refine ⟨before, hbefore, ?_⟩
  rcases hlast with rfl | ⟨last, hlast, rfl⟩
  · exact Nat.zero_le _
  · have hpairs := Nat.le_trans (length_distinct_le _) (Expansion.length_pairs_le before last)
    exact Nat.le_trans hpairs (Nat.mul_le_mul_left _ (h last hlast))

theorem cons (hfirst : registry.HasAtMost limit table (.content content) m)
    (hrest : registry.HasAtMost limit table (.contents rest) n) :
    registry.HasAtMost limit table (.contents (content :: rest)) (m * n) := by
  intro past all hall
  rw [← List.singleton_append, ← List.append_assoc] at hall
  obtain ⟨mid, hmid, hle⟩ := hrest _ _ hall
  obtain ⟨before, hbefore, hextended⟩ := hfirst.extended hmid
  refine ⟨before, hbefore, ?_⟩
  calc all.length ≤ mid.length * n := hle
    _ ≤ before.length * m * n := Nat.mul_le_mul_right n hextended
    _ = before.length * (m * n) := Nat.mul_assoc _ _ _

/-- Behind a content without alternatives, nothing is known of the rest. -/
theorem cons_zero (hfirst : registry.HasAtMost limit table (.content content) 0) :
    registry.HasAtMost limit table (.contents (content :: rest)) n := by
  intro past all hall
  rw [← List.singleton_append, ← List.append_assoc] at hall
  obtain ⟨mid, hmid, hempty⟩ := hall.contents_append
  obtain ⟨before, hbefore, hnone⟩ := hfirst.extended hmid
  refine ⟨before, hbefore, ?_⟩
  rw [hempty (List.length_eq_zero_iff.mp (Nat.le_zero.mp hnone))]
  exact Nat.zero_le _

/-- In front of contents without alternatives, nothing is known of the content. -/
theorem cons_of_rest_zero (hrest : registry.HasAtMost limit table (.contents rest) 0) :
    registry.HasAtMost limit table (.contents (content :: rest)) n := by
  intro past all hall
  rw [← List.singleton_append, ← List.append_assoc] at hall
  obtain ⟨mid, hmid, hnone⟩ := hrest _ _ hall
  obtain ⟨before, hbefore, -⟩ := hmid.contents_concat
  exact ⟨before, hbefore, Nat.le_trans hnone (Nat.zero_le _)⟩

theorem branch {branch : Rule} {rest : List Rule}
    (hfirst : registry.HasAtMost limit table (.contents branch.contents) m)
    (hrest : registry.HasAtMost limit table (.branches rest) n) :
    registry.HasAtMost limit table (.branches (branch :: rest)) (m + n) := by
  intro all hall
  obtain ⟨first, behind, hexpands, hbehind, rfl⟩ := hall.branches_cons
  obtain ⟨before, hbefore, hle⟩ := hfirst [] first hexpands
  obtain rfl := hbefore.contents_nil
  have hle : first.length ≤ 1 * m := hle
  have hbehind := hrest behind hbehind
  rw [List.length_append]
  omega

theorem pool {definition : Definition} {variation argument : Option String} {rules : List Rule}
    (hrules : definition.rulesFor variation = .ok rules)
    (h : registry.HasAtMost limit table (.branches rules) n) :
    registry.HasAtMost limit table (.pool definition variation argument)
      (doubledIf definition.varyCase n) := by
  intro all hall
  cases hall with
  | pool hother hexpands =>
    obtain rfl := Except.ok.inj (hrules.symm.trans hother)
    obtain ⟨bare, hbare, -, hdoubled⟩ := hexpands.rules_branches
    have hle := doubledIf_mono definition.varyCase (h bare hbare)
    exact Nat.le_trans (length_distinct_le _) (Nat.le_trans hdoubled hle)

end HasAtMost

/-- What counting finds bounds what expanding finds, at each step. -/
theorem bounds_kept : registry.KeptByCounting (registry.Bounds limit table) where
  word text n hn all hall := by
    cases hall
    exact Nat.le_of_eq (Possibilities.ofNat_eq_finite hn).symm
  wordGroup text modifiers n hn all hall := by
    cases hall
    have hn := Possibilities.ofNat_eq_finite ((modifiers.weigh_ofNat 1).symm.trans hn)
    exact hn ▸ modifiers.length_alternatives_le _
  choice {branches modifiers total} htotal n hn all hall := by
    cases hall with
    | @choice _ _ base _ hinclude hbase =>
      obtain ⟨x, hx, hweight⟩ := Modifiers.weigh_eq_finite hinclude hn
      have hle := Nat.le_trans (length_distinct_le base) (htotal x hx base hbase)
      exact hweight ▸ Nat.le_trans (modifiers.length_alternatives_le _) (Modifiers.weight_mono hle)
    | skippedChoice _ hskipped =>
      exact Modifiers.weigh_skipped hskipped hn ▸ modifiers.length_alternatives_le []
  reference {ref target total} htarget hpool n hn all hall := by
    cases hall with
    | @reference _ _ base hother hinclude hbase =>
      obtain rfl := Option.some.inj (htarget.symm.trans hother)
      obtain ⟨x, hx, hweight⟩ := Modifiers.weigh_eq_finite hinclude hn
      have hle := hpool hinclude x hx base hbase
      have hlength := Nat.le_trans (ref.modifiers.length_alternatives_le base)
        (Modifiers.weight_mono hle)
      exact hweight ▸ hlength
    | skippedReference _ hskipped =>
      exact Modifiers.weigh_skipped hskipped hn ▸ ref.modifiers.length_alternatives_le []
  nil n hn past all hall := by
    rw [List.append_nil] at hall
    refine ⟨all, hall, ?_⟩
    rw [Possibilities.ofNat_eq_finite hn]
    exact Nat.le_of_eq (Nat.mul_one _).symm
  cons {content rest first behind} hfirst hrest n hn := by
    by_cases hnothing : first = 0
    · exact HasAtMost.cons_zero (hfirst 0 hnothing)
    by_cases hnone : behind = 0
    · exact HasAtMost.cons_of_rest_zero (hrest 0 hnone)
    obtain ⟨x, y, hx, hy, hproduct⟩ := Possibilities.mul_eq_finite hnothing hnone hn
    exact hproduct ▸ (hfirst x hx).cons (hrest y hy)
  noBranch n hn all hall := by
    rw [hall.branches_nil]
    exact Nat.zero_le _
  branch hfirst hrest n hn := by
    obtain ⟨x, y, hx, hy, hsum⟩ := Possibilities.add_eq_finite hn
    exact hsum ▸ (hfirst x hx).branch (hrest y hy)
  pool hrules htotal n hn := by
    obtain ⟨x, hx, hdoubled⟩ := Possibilities.doubledIf_eq_finite hn
    exact hdoubled ▸ (htotal x hx).pool hrules
  again _ _ := nofun

/-- A unit has no more examples than were counted, whatever was counted and expanded before. -/
theorem length_examplesOf_le_count {definition : Definition}
    (hdefinition : registry.get? definition.key = some definition)
    {variation argument : Option String} {memo : CountMemo} {state : ExpandState} {n : UInt64}
    {examples : List Example} (hmemo : registry.Counted memo)
    (hstate : registry.Expanded limit state)
    (hcount : ((registry.countUnit definition variation).run memo).1 = .ok (.finite n))
    (hexamples :
      ((registry.examplesOf limit definition variation argument).run state).1 = .ok examples) :
    examples.length ≤ n.toNat := by
  obtain ⟨⟨all, hall, rfl⟩, -⟩ :=
    (examplesOf_ends hdefinition hstate.known).of_run_ok (Prod.ext hexamples rfl)
  have hbounds (table : Synonyms) :
      registry.Bounds limit table (.pool definition variation argument) (.finite n) :=
    (hmemo.fitsPool bounds_kept hdefinition hcount).fits argument
  have hlength := hbounds _ n rfl all hall
  have hdistinct := length_distinct_le (all.map (·.result))
  rw [List.length_map] at hdistinct
  omega

end Registry

/-- The intent has at most as many examples as were counted. -/
theorem Courtesy.length_examplesOf_ask_le : ∃ examples,
    ((phrasebook.examplesOf 8 ask none none).run {}).1 = .ok examples ∧ examples.length ≤ 8 := by
  obtain ⟨examples, state, hrun⟩ := exists_examples_ask
  have hexamples : ((phrasebook.examplesOf 8 ask none none).run {}).1 = .ok examples := by rw [hrun]
  have hcount : ((phrasebook.countUnit ask none).run ∅).1 = .ok (.finite 8) := by decide +kernel
  exact ⟨examples, hexamples,
    Registry.length_examplesOf_le_count get?_ask .start .start hcount hexamples⟩

end Phrasebook
