import Phrasebook.Decisions

/-! Decisions as partial knowledge of an assignment: which assignments of decisions to all keys obey
the decisions taken so far, and what taking one more decision or merging two tables says about them.
-/

namespace Phrasebook.Decisions

open Std

variable {decisions other : Decisions} {s : String → Bool} {key : String} {decision : Bool}

/-- The assignment decides every key of the table as the table does. -/
def ObeyedBy (decisions : Decisions) (s : String → Bool) : Prop :=
  ∀ key decision, decisions[key]? = some decision → s key = decision

/-- Every decision of the first table is one of the second. -/
def Within (decisions other : Decisions) : Prop :=
  ∀ (key : String) (decision : Bool), decisions[key]? = some decision → other[key]? = some decision

theorem Within.refl (decisions : Decisions) : decisions.Within decisions := fun _ _ h => h

theorem Within.trans {third : Decisions} (h : decisions.Within other) (h' : other.Within third) :
    decisions.Within third :=
  fun key decision hk => h' key decision (h key decision hk)

theorem Within.obeyedBy (h : decisions.Within other) (hs : other.ObeyedBy s) :
    decisions.ObeyedBy s :=
  fun key decision hk => hs key decision (h key decision hk)

theorem within_insert (h : decisions[key]? = none) :
    decisions.Within (decisions.insert key decision) := by
  intro other taken hother
  rw [ExtTreeMap.getElem?_insert]
  split
  · next heq =>
    rw [LawfulEqOrd.eq_of_compare heq, hother] at h
    contradiction
  · exact hother

@[simp] theorem obeyedBy_empty : (∅ : Decisions).ObeyedBy s := by
  intro key decision h
  simp at h

theorem exists_obeyedBy (decisions : Decisions) : ∃ s, decisions.ObeyedBy s :=
  ⟨fun key => decisions[key]?.getD false, fun key decision h => by simp [h]⟩

/-- A decision that is new to a table is one more that an assignment has to obey. -/
theorem obeyedBy_insert (h : decisions[key]? = none ∨ decisions[key]? = some decision) :
    ObeyedBy (decisions.insert key decision) s ↔ decisions.ObeyedBy s ∧ s key = decision := by
  constructor
  · intro hs
    refine ⟨fun other taken hother => hs other taken ?_, hs key decision (by simp)⟩
    rw [ExtTreeMap.getElem?_insert]
    split
    · next heq =>
      rw [LawfulEqOrd.eq_of_compare heq, hother] at h
      simpa [eq_comm] using h
    · exact hother
  · rintro ⟨hs, hkey⟩ other taken hother
    rw [ExtTreeMap.getElem?_insert] at hother
    split at hother
    · next heq =>
      rw [← LawfulEqOrd.eq_of_compare heq, hkey]
      exact Option.some.inj hother
    · exact hs other taken hother

theorem obeyedBy_singleton :
    ObeyedBy ((∅ : Decisions).insert key decision) s ↔ s key = decision := by
  rw [obeyedBy_insert (.inl (by simp))]
  simp

/-- A decision is refused exactly by the assignments that decide otherwise. -/
theorem obeyed_take?_iff : (∃ taken, decisions.take? key decision = some taken ∧ taken.ObeyedBy s) ↔
    decisions.ObeyedBy s ∧ s key = decision := by
  unfold take?
  cases hk : decisions[key]? with
  | none => simp [obeyedBy_insert (.inl hk)]
  | some earlier =>
    by_cases heq : earlier = decision
    · have hsame : decisions.ObeyedBy s → s key = decision := fun hs => heq ▸ hs key earlier hk
      simpa [heq] using hsame
    · have hother : decisions.ObeyedBy s → ¬s key = decision := fun hs hkey =>
        heq ((hs key earlier hk).symm.trans hkey)
      simpa [heq] using hother

theorem obeyed_takeFor?_iff {key : Option String} :
    (∃ taken, decisions.takeFor? key decision = some taken ∧ taken.ObeyedBy s) ↔
      decisions.ObeyedBy s ∧ ∀ k, key = some k → s k = decision := by
  cases key with
  | none => simp [takeFor?]
  | some key => simpa [takeFor?] using obeyed_take?_iff

theorem obeyedBy_iff_toList :
    decisions.ObeyedBy s ↔ ∀ entry ∈ decisions.toList, s entry.1 = entry.2 := by
  unfold ObeyedBy
  constructor
  · rintro h ⟨key, decision⟩ hentry
    exact h key decision (ExtTreeMap.mem_toList_iff_getElem?_eq_some.mp hentry)
  · intro h key decision hk
    exact h (key, decision) (ExtTreeMap.mem_toList_iff_getElem?_eq_some.mpr hk)

/-- Tables can be merged exactly as far as one assignment obeys both. -/
theorem obeyed_merge?_iff : (∃ merged, decisions.merge? other = some merged ∧ merged.ObeyedBy s) ↔
    decisions.ObeyedBy s ∧ other.ObeyedBy s := by
  rw [@obeyedBy_iff_toList other]
  unfold merge?
  generalize other.toList = entries
  induction entries generalizing decisions with
  | nil => simp
  | cons entry rest ih =>
    obtain ⟨key, decision⟩ := entry
    rw [List.foldlM_cons, List.forall_mem_cons, ← and_assoc, ← obeyed_take?_iff]
    rcases htake : decisions.take? key decision with _ | taken
    · simp [htake]
    · simp only [htake, Option.bind_eq_bind, Option.bind_some]
      rw [ih]
      simp

end Phrasebook.Decisions
