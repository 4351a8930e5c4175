import Phrasebook.Proofs.Decisions
import Phrasebook.Proofs.Derivation
import Phrasebook.Proofs.Ends
import Phrasebook.Proofs.Synonyms
import Phrasebook.Sampling

/-! What each step of drawing an example may choose, for any source of random choices, and what it
keeps of the state. Only the first use of a named key takes a decision. -/

namespace Phrasebook

/-- A roll is positive below the percentage, so that it can be either unless the percentage is at
one end. -/
theorem mem_decisionOutcomes {percent : UInt8} {decision : Bool} :
    decision ∈ decisionOutcomes percent ↔
      if decision then 0 < percent.toNat else percent.toNat < 100 := by
  have hpos : percent > 0 ↔ 0 < percent.toNat := UInt8.lt_iff_toNat_lt
  have hless : percent < 100 ↔ percent.toNat < 100 := UInt8.lt_iff_toNat_lt
  unfold decisionOutcomes
  cases decision <;> simp [hpos, hless]

variable {Source : Type} {state : SampleState Source}
  {failed : GenerationError → SampleState Source → Prop}

namespace SampleM

theorem draw_ends {α : Type} {choose : Source → α × Source}
    {post : α → SampleState Source → Prop}
    (h : ∀ source, post (choose state.source).1 { state with source }) :
    Ends (draw choose) state post failed :=
  ends_modifyGet.mpr (h _)

variable [RandomSource Source]

theorem index_ends {count : Nat} {post : Nat → SampleState Source → Prop}
    (h : ∀ place source, (0 < count → place < count) → post place { state with source }) :
    Ends (index count) state post failed := by
  unfold index
  split
  · refine ends_bind.mpr (draw_ends fun source => ends_pure.mpr (h _ source fun _ => ?_))
    exact Fin.isLt _
  · next hcount => exact h 0 state.source fun hpos => (hcount hpos).elim

theorem decisions_of_index {count place : Nat} {state' : SampleState Source}
    (h : (index count).run state = (.ok place, state')) : state'.decisions = state.decisions := by
  have hgives : Gives (index count) state fun _ state' => state'.decisions = state.decisions :=
    index_ends fun _ _ _ => rfl
  exact hgives.of_run_ok h

theorem synonyms_of_index {count place : Nat} {state' : SampleState Source}
    (h : (index count).run state = (.ok place, state')) : state'.synonyms = state.synonyms := by
  have hgives : Gives (index count) state fun _ state' => state'.synonyms = state.synonyms :=
    index_ends fun _ _ _ => rfl
  exact hgives.of_run_ok h

theorem coin_ends {post : Bool → SampleState Source → Prop}
    (h : ∀ upper source, post upper { state with source }) :
    Ends (coin : SampleM Source Bool) state post failed :=
  draw_ends fun source => h _ source

theorem roll_ends {percent : UInt8} {post : Bool → SampleState Source → Prop}
    (h : ∀ decision source, decision ∈ decisionOutcomes percent →
      post decision { state with source }) :
    Ends (roll percent : SampleM Source Bool) state post failed := by
  unfold roll
  refine ends_bind.mpr (index_ends fun place source hplace => ends_pure.mpr (h _ source ?_))
  have hbelow := hplace (by decide)
  rw [mem_decisionOutcomes]
  by_cases hroll : place < percent.toNat
  · simp only [hroll, decide_true, ite_true]
    omega
  · simp only [hroll, decide_false, Bool.false_eq_true, ite_false]
    omega

/-- Where the case is drawn, what the mentions cover is listed anew. -/
theorem drawCase_ends {varyCase : Bool} {e : Example} {post : Example → SampleState Source → Prop}
    (h : ∀ variant source synonyms, variant ∈ e.caseVariants varyCase →
      state.synonyms.Within synonyms → (varyCase = true → synonyms.Notes variant) →
      post variant { state with source, synonyms }) :
    Ends (drawCase varyCase e) state post failed := by
  unfold drawCase
  cases varyCase with
  | false =>
    refine ends_pure.mpr (h e state.source state.synonyms ?_ (.refl _) nofun)
    exact Example.mem_caseVariants.mpr rfl
  | true =>
    refine ends_bind.mpr (coin_ends fun upper source => ends_bind.mpr (ends_modify.mpr ?_))
    apply h
    · exact Example.mem_caseVariants.mpr ⟨upper, rfl⟩
    · exact Synonyms.within_recordMentions _ _
    · exact fun _ => Synonyms.notes_recordMentions _ _

theorem mem_caseVariants_of_drawCase {varyCase : Bool} {e variant : Example}
    {state' : SampleState Source} (h : (drawCase varyCase e).run state = (.ok variant, state')) :
    variant ∈ e.caseVariants varyCase ∧ state'.decisions = state.decisions := by
  have hgives : Gives (drawCase varyCase e) state fun variant state' =>
      variant ∈ e.caseVariants varyCase ∧ state'.decisions = state.decisions :=
    drawCase_ends fun _ _ _ hmem _ _ => ⟨hmem, rfl⟩
  exact hgives.of_run_ok h

theorem covers_of_drawCase {varyCase : Bool} {e variant : Example} {state' : SampleState Source}
    (h : (drawCase varyCase e).run state = (.ok variant, state')) :
    state.synonyms.Within state'.synonyms ∧
      (state.synonyms.Covers e → state'.synonyms.Covers variant) := by
  have hgives : Gives (drawCase varyCase e) state fun variant state' =>
      state.synonyms.Within state'.synonyms ∧
        (state.synonyms.Covers e → state'.synonyms.Covers variant) :=
    drawCase_ends fun _ _ _ hmem hwithin hnotes =>
      ⟨hwithin, fun hcovers => (hcovers.mono hwithin).of_mem_caseVariants hmem hnotes⟩
  exact hgives.of_run_ok h

end SampleM

namespace Modifiers

variable [RandomSource Source] {modifiers : Modifiers}

theorem drawForm_ends {e : Example} {post : Example → SampleState Source → Prop}
    (h : ∀ variant source synonyms, variant ∈ e.caseVariants modifiers.varyCase →
      state.synonyms.Within synonyms → (modifiers.varyCase = true → synonyms.Notes variant) →
      post (modifiers.addSpace variant) { state with source, synonyms }) :
    Ends (modifiers.drawForm e) state post failed := by
  unfold drawForm
  exact ends_bind.mpr (SampleM.drawCase_ends h)

theorem mem_forms_of_drawForm {e form : Example} {state' : SampleState Source}
    (h : (modifiers.drawForm e).run state = (.ok form, state')) :
    form ∈ modifiers.forms e ∧ state'.decisions = state.decisions := by
  have hgives : Gives (modifiers.drawForm e) state fun form state' =>
      form ∈ modifiers.forms e ∧ state'.decisions = state.decisions :=
    drawForm_ends fun _ _ _ hmem _ _ => ⟨List.mem_map_of_mem hmem, rfl⟩
  exact hgives.of_run_ok h

theorem covers_of_drawForm {e form : Example} {state' : SampleState Source}
    (h : (modifiers.drawForm e).run state = (.ok form, state')) :
    state.synonyms.Within state'.synonyms ∧
      (state.synonyms.Covers e → state'.synonyms.Covers form) := by
  have hgives : Gives (modifiers.drawForm e) state fun form state' =>
      state.synonyms.Within state'.synonyms ∧
        (state.synonyms.Covers e → state'.synonyms.Covers form) :=
    drawForm_ends fun _ _ _ hmem hwithin hnotes => ⟨hwithin, fun hcovers =>
      ((hcovers.mono hwithin).of_mem_caseVariants hmem hnotes).addSpace modifiers⟩
  exact hgives.of_run_ok h

theorem drawInclusion_of_always (h : modifiers.isOptional = false) :
    (modifiers.drawInclusion : SampleM Source Bool) = pure true := by
  have hkey : modifiers.randomKey = none := by simpa [isOptional] using h
  rw [drawInclusion, hkey]

/-- Only optional contents are left out. -/
theorem isOptional_of_drawInclusion {state' : SampleState Source}
    (h : modifiers.drawInclusion.run state = (.ok false, state')) :
    modifiers.isOptional = true := by
  cases halways : modifiers.isOptional with
  | true => rfl
  | false =>
    rw [drawInclusion_of_always halways] at h
    cases h

theorem drawInclusion_of_unnamed (h : modifiers.isOptional = true)
    (hkey : modifiers.correlationKey = none) :
    (modifiers.drawInclusion : SampleM Source Bool) =
      return modifiers.includedBy (← SampleM.roll modifiers.inclusionPercent) := by
  obtain ⟨key, hsome⟩ := Option.isSome_iff_exists.mp h
  have hempty : key = "" := by simpa [correlationKey, hsome, Option.filter] using hkey
  rw [drawInclusion, hsome, hempty]
  rfl

theorem drawInclusion_of_key {key : String} (h : modifiers.correlationKey = some key) :
    (modifiers.drawInclusion : SampleM Source Bool) =
      return modifiers.includedBy (← SampleM.decide key modifiers.inclusionPercent) := by
  obtain ⟨hsome, hne⟩ := Option.filter_eq_some_iff.mp h
  rw [drawInclusion, hsome]
  split
  · contradiction
  · next heq =>
    obtain rfl := Option.some.inj heq
    simp at hne
  · next heq =>
    obtain rfl := Option.some.inj heq
    rfl

/-- A decision that the percentage of a content admits brings a content that may be there, or leaves
out one that may be left out. -/
theorem possible_of_mem_decisionOutcomes (h : modifiers.isOptional = true) {decision : Bool}
    (hdecision : decision ∈ decisionOutcomes modifiers.inclusionPercent) :
    if modifiers.includedBy decision then modifiers.canInclude else modifiers.canExclude := by
  cases hpresent : modifiers.includedBy decision with
  | false =>
    simp only [canExclude, h, Bool.true_and, List.any_eq_true]
    exact ⟨decision, hdecision, by rw [hpresent]; rfl⟩
  | true =>
    simp only [canInclude, h, Bool.not_true, Bool.false_or, List.any_eq_true]
    exact ⟨decision, hdecision, hpresent⟩

/-- A content without a key of its own is decided on the spot; a named key keeps its decision, or is
decided as the percentage of the content admits. -/
theorem drawInclusion_ends {post : Bool → SampleState Source → Prop}
    (hunnamed : ∀ present source, modifiers.correlationKey = none →
      (if present then modifiers.canInclude else modifiers.canExclude) →
      post present { state with source })
    (hdecided : ∀ key decision, modifiers.correlationKey = some key →
      state.decisions[key]? = some decision → post (modifiers.includedBy decision) state)
    (hfresh : ∀ key decision source, modifiers.correlationKey = some key →
      state.decisions[key]? = none → decision ∈ decisionOutcomes modifiers.inclusionPercent →
      post (modifiers.includedBy decision)
        { state with source, decisions := state.decisions.insert key decision }) :
    Ends (modifiers.drawInclusion : SampleM Source Bool) state post failed := by
  cases hkey : modifiers.correlationKey with
  | none =>
    cases hoptional : modifiers.isOptional with
    | false =>
      rw [drawInclusion_of_always hoptional]
      exact hunnamed true state.source hkey (by simp [canInclude, hoptional])
    | true =>
      rw [drawInclusion_of_unnamed hoptional hkey]
      refine ends_bind.mpr (SampleM.roll_ends fun decision source hdecision => ends_pure.mpr ?_)
      exact hunnamed _ source hkey (possible_of_mem_decisionOutcomes hoptional hdecision)
  | some key =>
    rw [drawInclusion_of_key hkey, SampleM.decide]
    refine ends_bind.mpr (ends_bind.mpr (ends_get.mpr ?_))
    split
    · next decision hdecision => exact hdecided key decision hkey hdecision
    · next hnone =>
      refine ends_bind.mpr (SampleM.roll_ends fun decision source hdecision => ?_)
      exact hfresh key decision source hkey hnone hdecision

theorem synonyms_of_drawInclusion {present : Bool} {state' : SampleState Source}
    (h : modifiers.drawInclusion.run state = (.ok present, state')) :
    state'.synonyms = state.synonyms := by
  have hgives : Gives modifiers.drawInclusion state fun _ state' =>
      state'.synonyms = state.synonyms :=
    drawInclusion_ends (fun _ _ _ _ => rfl) (fun _ _ _ _ => rfl) fun _ _ _ _ _ _ => rfl
  exact hgives.of_run_ok h

/-- A content fails at most as drawing it where it is there does. -/
theorem failsWithin_drawIfIncluded {allowed : GenerationError → Prop}
    {draw : SampleM Source Example} (h : FailsWithin allowed draw) :
    FailsWithin allowed (modifiers.drawIfIncluded draw) := by
  refine FailsWithin.bind (fun _ => ?_) fun present => ?_
  · exact drawInclusion_ends (fun _ _ _ _ => trivial) (fun _ _ _ _ => trivial)
      fun _ _ _ _ _ _ => trivial
  · cases present with
    | false => exact .pure _
    | true => exact h.bind fun e _ => drawForm_ends fun _ _ _ _ _ _ => trivial

end Modifiers

end Phrasebook
