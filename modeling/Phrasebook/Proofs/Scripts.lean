import Phrasebook.Proofs.DrawingSteps

/-! Random choices that are written down beforehand. A computation can be scripted to a value under
an assignment of the named keys if, wherever the decisions taken so far obey the assignment, some
choices lead it to that value, and the decisions behind it obey the assignment as well. -/

namespace Phrasebook

/-- A source that makes the choices that are written down, each brought below the number of possible
ones; behind the last one it chooses 0 each time. -/
structure Script where
  choices : List Nat

namespace Script

def next (script : Script) : Nat × Script := (script.choices.headD 0, ⟨script.choices.tail⟩)

instance : RandomSource Script where
  index count h script := (⟨script.next.1 % count, Nat.mod_lt _ h⟩, script.next.2)
  coin script := (script.next.1 % 2 = 1, script.next.2)

end Script

/-- Under the assignment, some choices lead the computation to the value, whatever stands behind
them in the script. -/
def Scripted {α : Type} (s : String → Bool) (x : SampleM Script α) (a : α) : Prop :=
  ∀ decisions synonyms, Decisions.ObeyedBy decisions s → ∃ choices decisions' synonyms',
    Decisions.ObeyedBy decisions' s ∧ ∀ rest,
      x.run ⟨⟨choices ++ rest⟩, decisions, synonyms⟩ = (.ok a, ⟨⟨rest⟩, decisions', synonyms'⟩)

namespace Scripted

variable {α β : Type} {s : String → Bool}

theorem pure (a : α) : Scripted s (pure a) a :=
  fun decisions synonyms hs => ⟨[], decisions, synonyms, hs, fun _ => rfl⟩

/-- The choices of the second computation stand behind those of the first. -/
theorem bind {x : SampleM Script α} {f : α → SampleM Script β} {a : α} {b : β}
    (hx : Scripted s x a) (hf : Scripted s (f a) b) : Scripted s (x >>= f) b := by
  intro decisions synonyms hs
  obtain ⟨first, decisions₁, synonyms₁, hs₁, hfirst⟩ := hx decisions synonyms hs
  obtain ⟨second, decisions₂, synonyms₂, hs₂, hsecond⟩ := hf decisions₁ synonyms₁ hs₁
  refine ⟨first ++ second, decisions₂, synonyms₂, hs₂, fun rest => ?_⟩
  rw [List.append_assoc, run_bind_of_ok (hfirst _)]
  exact hsecond rest

theorem record (change : Synonyms → Synonyms) : Scripted s (SampleM.record change) () :=
  fun decisions synonyms hs => ⟨[], decisions, change synonyms, hs, fun _ => rfl⟩

theorem index {count place : Nat} (h : place < count) : Scripted s (SampleM.index count) place := by
  intro decisions synonyms hs
  refine ⟨[place], decisions, synonyms, hs, fun rest => ?_⟩
  unfold SampleM.index
  rw [dif_pos (Nat.zero_lt_of_lt h)]
  show (Except.ok (place % count), SampleState.mk (Script.mk rest) decisions synonyms) = _
  rw [Nat.mod_eq_of_lt h]

theorem coin (upper : Bool) : Scripted s SampleM.coin upper := by
  intro decisions synonyms hs
  refine ⟨[upper.toNat], decisions, synonyms, hs, fun rest => ?_⟩
  cases upper <;> rfl

/-- A roll can take any decision that the percentage admits: the least number decides positively and
the greatest one negatively, if any number does. -/
theorem roll {percent : UInt8} {decision : Bool} (h : decision ∈ decisionOutcomes percent) :
    Scripted s (SampleM.roll percent) decision := by
  have hbound := mem_decisionOutcomes.mp h
  obtain ⟨place, hplace, rfl⟩ :
      ∃ place < 100, Decidable.decide (place < percent.toNat) = decision := by
    cases decision with
    | true => exact ⟨0, by omega, by simpa using hbound⟩
    | false => exact ⟨99, by omega, by simp at hbound ⊢; omega⟩
  exact (index hplace).bind (Scripted.pure _)

theorem decide {key : String} {percent : UInt8} (h : s key ∈ decisionOutcomes percent) :
    Scripted s (SampleM.decide key percent) (s key) := by
  intro decisions synonyms hs
  unfold SampleM.decide
  rcases hkey : decisions[key]? with _ | decision
  · obtain ⟨choices, decisions₁, synonyms₁, hs₁, hroll⟩ := roll (s := s) h decisions synonyms hs
    have hknown : decisions₁[key]? = none ∨ decisions₁[key]? = some (s key) := by
      rcases hkey₁ : decisions₁[key]? with _ | taken
      · exact .inl rfl
      · exact .inr (congrArg some (hs₁ key taken hkey₁).symm)
    refine ⟨choices, decisions₁.insert key (s key), synonyms₁,
      (Decisions.obeyedBy_insert hknown).mpr ⟨hs₁, rfl⟩, fun rest => ?_⟩
    rw [run_get_bind]
    simp only [hkey]
    rw [run_bind_of_ok (hroll rest)]
    rfl
  · refine ⟨[], decisions, synonyms, hs, fun rest => ?_⟩
    rw [run_get_bind]
    simp only [hkey, hs key decision hkey]
    rfl

theorem drawCase {varyCase : Bool} {e variant : Example} (h : variant ∈ e.caseVariants varyCase) :
    Scripted s (SampleM.drawCase varyCase e) variant := by
  have hvariant := Example.mem_caseVariants.mp h
  cases varyCase with
  | false =>
    obtain rfl := hvariant
    exact Scripted.pure _
  | true =>
    obtain ⟨upper, rfl⟩ := hvariant
    exact (coin upper).bind ((record _).bind (Scripted.pure _))

variable {modifiers : Modifiers}

theorem drawForm {e form : Example} (h : form ∈ modifiers.forms e) :
    Scripted s (modifiers.drawForm e) form := by
  obtain ⟨variant, hvariant, rfl⟩ := List.mem_map.mp h
  exact (drawCase hvariant).bind (Scripted.pure _)

/-- A content can be there or be left out as the assignment admits. -/
theorem drawInclusion {present : Bool} (h : modifiers.Admits s present) :
    Scripted s modifiers.drawInclusion present := by
  unfold Modifiers.Admits at h
  cases hkey : modifiers.correlationKey with
  | none =>
    rw [hkey] at h
    cases hoptional : modifiers.isOptional with
    | false =>
      have hpresent : present = true := by
        cases present with
        | true => rfl
        | false => simp [Modifiers.canExclude, hoptional] at h
      rw [Modifiers.drawInclusion_of_always hoptional, hpresent]
      exact Scripted.pure true
    | true =>
      rw [Modifiers.drawInclusion_of_unnamed hoptional hkey]
      obtain ⟨decision, hdecision, rfl⟩ : ∃ decision ∈ decisionOutcomes modifiers.inclusionPercent,
          modifiers.includedBy decision = present := by
        cases present <;> simpa [Modifiers.canExclude, Modifiers.canInclude, hoptional] using h
      exact (roll hdecision).bind (Scripted.pure _)
  | some key =>
    rw [hkey] at h
    obtain ⟨hdecision, rfl⟩ := h
    rw [Modifiers.drawInclusion_of_key hkey]
    exact (Scripted.decide hdecision).bind (Scripted.pure _)

theorem drawPresent {draw : SampleM Script Example} {e form : Example} (h : modifiers.Admits s true)
    (hdraw : Scripted s draw e) (hform : form ∈ modifiers.forms e) :
    Scripted s (modifiers.drawIfIncluded draw) form :=
  (drawInclusion h).bind (hdraw.bind (drawForm hform))

theorem drawAbsent {draw : SampleM Script Example} (h : modifiers.Admits s false) :
    Scripted s (modifiers.drawIfIncluded draw) {} :=
  (drawInclusion h).bind (Scripted.pure _)

end Scripted

end Phrasebook
