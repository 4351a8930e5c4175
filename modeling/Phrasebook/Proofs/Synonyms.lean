import Phrasebook.Finishing
import Phrasebook.Proofs.Placement

/-! What a table of synonyms lists. Recording and merging add forms and never take one away. A table
covers an example if every mention lies inside the text and what it covers is listed for its value. -/

namespace Phrasebook

open Std

namespace Synonyms

variable {table other more : Synonyms} {canonical surface : String} {e first second : Example}

theorem has_iff : table.has canonical surface = true ↔
    ∃ forms, table.get? canonical = some forms ∧ surface ∈ forms := by
  unfold has
  split
  · next forms hforms => simp [hforms]
  · next hnone => simp [hnone]

theorem mem_getD_iff : surface ∈ (table.get? canonical).getD ∅ ↔
    table.has canonical surface = true := by
  rw [has_iff]
  cases table.get? canonical with
  | none => simp
  | some forms => simp

theorem not_has_empty : ¬(∅ : Synonyms).has canonical surface = true := by
  rw [← mem_getD_iff]
  show ¬surface ∈ ((∅ : ExtTreeMap String (ExtTreeSet String))[canonical]?).getD ∅
  simp

/-- A table with more forms of a value lists them besides all that it listed before. -/
theorem has_insert (table : Synonyms) (key : String) (forms : ExtTreeSet String) :
    Synonyms.has ⟨table.forms.insert key forms⟩ canonical surface = true ↔
      if key = canonical then surface ∈ forms else table.has canonical surface = true := by
  rw [has_iff, has_iff]
  simp only [get?, ExtTreeMap.getElem?_insert, Std.compare_eq_iff_eq]
  split <;> simp

theorem has_record (table : Synonyms) (key form : String) :
    (table.record key form).has canonical surface = true ↔
      canonical = key ∧ surface = form ∨ table.has canonical surface = true := by
  unfold record
  rw [has_insert]
  split
  · next heq =>
    subst heq
    simp [ExtTreeSet.mem_insert, mem_getD_iff, eq_comm (a := form)]
  · next hne => simp [Ne.symm hne]

theorem has_extend (table : Synonyms) (key : String) (forms : ExtTreeSet String) :
    (table.extend key forms).has canonical surface = true ↔
      canonical = key ∧ surface ∈ forms ∨ table.has canonical surface = true := by
  unfold extend
  rw [has_insert]
  split
  · next heq =>
    subst heq
    simp [ExtTreeSet.mem_union_iff, mem_getD_iff, or_comm]
  · next hne => simp [Ne.symm hne]

theorem has_foldl_extend (table : Synonyms) (entries : List (String × ExtTreeSet String)) :
    (entries.foldl (fun table entry => table.extend entry.1 entry.2) table).has canonical surface =
        true ↔
      (∃ forms, (canonical, forms) ∈ entries ∧ surface ∈ forms) ∨
        table.has canonical surface = true := by
  induction entries generalizing table with
  | nil => simp
  | cons entry rest ih =>
    rw [List.foldl_cons, ih, has_extend]
    constructor
    · rintro (⟨forms, hmem, hforms⟩ | ⟨rfl, hforms⟩ | htable)
      · exact .inl ⟨forms, List.mem_cons_of_mem _ hmem, hforms⟩
      · exact .inl ⟨entry.2, List.mem_cons_self, hforms⟩
      · exact .inr htable
    · rintro (⟨forms, hmem, hforms⟩ | htable)
      · rcases List.mem_cons.mp hmem with rfl | hmem
        · exact .inr (.inl ⟨rfl, hforms⟩)
        · exact .inl ⟨forms, hmem, hforms⟩
      · exact .inr (.inr htable)

/-- A merged table lists what either table lists. -/
theorem has_merge (table other : Synonyms) : (table.merge other).has canonical surface = true ↔
    other.has canonical surface = true ∨ table.has canonical surface = true := by
  have hmerge : table.merge other =
      other.forms.toList.foldl (fun table entry => table.extend entry.1 entry.2) table := rfl
  rw [hmerge, has_foldl_extend]
  refine or_congr ?_ Iff.rfl
  simp only [has_iff, ExtTreeMap.mem_toList_iff_getElem?_eq_some, get?]

/-- The other table lists all that this one lists. -/
def Within (table other : Synonyms) : Prop :=
  ∀ canonical surface, table.has canonical surface = true → other.has canonical surface = true

theorem Within.refl (table : Synonyms) : table.Within table := fun _ _ h => h

theorem Within.trans (h : table.Within other) (h' : other.Within more) : table.Within more :=
  fun canonical surface hhas => h' canonical surface (h canonical surface hhas)

theorem within_merge (table other : Synonyms) : table.Within (table.merge other) :=
  fun _ _ h => (has_merge table other).mpr (.inr h)

theorem within_merge_right (table other : Synonyms) : other.Within (table.merge other) :=
  fun _ _ h => (has_merge table other).mpr (.inl h)

/-! ### The mentions of an example -/

/-- What the mentions of the example cover is listed for their values. -/
def Notes (table : Synonyms) (e : Example) : Prop :=
  ∀ mention ∈ e.mentions, ∀ surface, e.surface? mention = some surface →
    table.has mention.canonicalValue surface = true

theorem has_recordMentions (table : Synonyms) (e : Example) :
    (table.recordMentions e).has canonical surface = true ↔
      (∃ mention ∈ e.mentions, mention.canonicalValue = canonical ∧
        e.surface? mention = some surface) ∨ table.has canonical surface = true := by
  unfold recordMentions
  generalize e.mentions = mentions
  induction mentions generalizing table with
  | nil => simp
  | cons mention rest ih =>
    rw [List.foldl_cons, ih]
    cases hsurface : e.surface? mention with
    | none => simp [hsurface]
    | some found =>
      have heq : canonical = mention.canonicalValue ∧ surface = found ↔
          mention.canonicalValue = canonical ∧ e.surface? mention = some surface := by
        simp [hsurface, eq_comm (a := canonical), eq_comm (a := surface)]
      rw [has_record, heq]
      simp [or_assoc, or_left_comm]

theorem within_recordMentions (table : Synonyms) (e : Example) :
    table.Within (table.recordMentions e) :=
  fun _ _ h => (has_recordMentions table e).mpr (.inr h)

theorem notes_recordMentions (table : Synonyms) (e : Example) : (table.recordMentions e).Notes e :=
  fun mention hmention _ hsurface =>
    (has_recordMentions table e).mpr (.inl ⟨mention, hmention, rfl, hsurface⟩)

theorem Notes.mono (h : table.Notes e) (hwithin : table.Within other) : other.Notes e :=
  fun mention hmention surface hsurface =>
    hwithin _ _ (h mention hmention surface hsurface)

/-- Every mention lies inside the text, and what it covers is listed for its value. -/
structure Covers (table : Synonyms) (e : Example) : Prop where
  isValid : e.isValid = true
  notes : table.Notes e

namespace Covers

theorem exists_surface (h : table.Covers e) {mention : Mention} (hmention : mention ∈ e.mentions) :
    ∃ surface, e.surface? mention = some surface ∧
      table.has mention.canonicalValue surface = true := by
  have hsurface := Example.surface?_of_le (Example.isValid_iff.mp h.isValid mention hmention)
  exact ⟨_, hsurface, h.notes mention hmention _ hsurface⟩

theorem mono (h : table.Covers e) (hwithin : table.Within other) : other.Covers e :=
  ⟨h.isValid, h.notes.mono hwithin⟩

theorem ofText (text : String) : table.Covers (.ofText text) := ⟨rfl, nofun⟩

theorem empty : table.Covers {} := .ofText ""

theorem append (hfirst : table.Covers first) (hsecond : table.Covers second) :
    table.Covers (first.append second) := by
  refine ⟨Example.isValid_append hfirst.isValid hsecond.isValid, ?_⟩
  intro mention hmention surface hsurface
  rcases List.mem_append.mp hmention with hmention | hmention
  · rw [Example.surface?_append_left (Example.isValid_iff.mp hfirst.isValid mention hmention)]
      at hsurface
    exact hfirst.notes mention hmention surface hsurface
  · obtain ⟨original, horiginal, rfl⟩ := List.mem_map.mp hmention
    rw [Example.surface?_append_right] at hsurface
    exact hsecond.notes original horiginal surface hsurface

theorem withLeadingSpace (h : table.Covers e) : table.Covers e.withLeadingSpace :=
  e.withLeadingSpace_eq ▸ append (.ofText " ") h

theorem addSpace (h : table.Covers e) (modifiers : Modifiers) :
    table.Covers (modifiers.addSpace e) := by
  unfold Modifiers.addSpace
  split
  · exact h.withLeadingSpace
  · exact h

/-- A change of case changes what mentions cover; that has to be listed once more. -/
theorem of_mem_caseVariants {varyCase : Bool} {variant : Example} (h : table.Covers e)
    (hvariant : variant ∈ e.caseVariants varyCase)
    (hnotes : varyCase = true → table.Notes variant) :
    table.Covers variant := by
  cases varyCase with
  | false => exact (Example.mem_caseVariants.mp hvariant) ▸ h
  | true =>
    obtain ⟨upper, rfl⟩ := Example.mem_caseVariants.mp hvariant
    exact ⟨Example.isValid_setCase h.isValid upper, hnotes rfl⟩

end Covers

end Synonyms

namespace Definition

variable {definition : Definition}

theorem within_recordSlot (table : Synonyms) (finished : Example) :
    table.Within (definition.recordSlot table finished) := by
  unfold recordSlot
  split
  · exact table.within_recordMentions finished
  · exact .refl table

theorem notes_recordSlot (hslot : definition.isSlot = true) (table : Synonyms)
    (finished : Example) :
    (definition.recordSlot table finished).Notes finished := by
  unfold recordSlot
  rw [if_pos hslot]
  exact table.notes_recordMentions finished

end Definition

end Phrasebook
