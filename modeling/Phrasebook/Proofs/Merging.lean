import Mathlib.Data.Multiset.Bind
import Mathlib.Data.Multiset.Lattice
import Phrasebook.Generation
import Phrasebook.Proofs.Groupings
import Phrasebook.Proofs.Synonyms

/-! Tables of synonyms that are filled apart and merged. A table is told by the canonical values and
the pairs that it lists; the tables form a semilattice in which merging is the join and recording a
pair joins the table with just that pair. So the work of filling a table can be divided in any way:
in the end it lists what all steps together list. -/

namespace Phrasebook

open Std

namespace Synonyms

variable {table other : Synonyms} {canonical surface : String}

/-- Whether a canonical value is listed, with forms or without. -/
def lists (table : Synonyms) (canonical : String) : Bool := (table.get? canonical).isSome

theorem lists_iff : table.lists canonical = true ↔ ∃ forms, table.get? canonical = some forms :=
  Option.isSome_iff_exists

theorem not_lists_empty : ¬(∅ : Synonyms).lists canonical = true := by
  rw [lists_iff]
  rintro ⟨forms, hforms⟩
  exact nomatch ExtTreeMap.getElem?_empty.symm.trans hforms

theorem lists_insert (table : Synonyms) (key : String) (forms : ExtTreeSet String) :
    Synonyms.lists ⟨table.forms.insert key forms⟩ canonical = true ↔
      canonical = key ∨ table.lists canonical = true := by
  simp only [lists, get?, ExtTreeMap.getElem?_insert, Std.compare_eq_iff_eq]
  split
  · next heq => simp [heq]
  · next hne => simp [Ne.symm hne]

theorem lists_foldl_extend (table : Synonyms) (entries : List (String × ExtTreeSet String)) :
    (entries.foldl (fun table entry => table.extend entry.1 entry.2) table).lists canonical =
        true ↔
      (∃ forms, (canonical, forms) ∈ entries) ∨ table.lists canonical = true := by
  induction entries generalizing table with
  | nil => simp
  | cons entry rest ih =>
    rw [List.foldl_cons, ih, extend, lists_insert]
    constructor
    · rintro (⟨forms, hmem⟩ | rfl | htable)
      · exact .inl ⟨forms, List.mem_cons_of_mem _ hmem⟩
      · exact .inl ⟨entry.2, List.mem_cons_self⟩
      · exact .inr htable
    · rintro (⟨forms, hmem⟩ | htable)
      · rcases List.mem_cons.mp hmem with rfl | hmem
        · exact .inr (.inl rfl)
        · exact .inl ⟨forms, hmem⟩
      · exact .inr (.inr htable)

/-- A merged table keeps the canonical values of both tables, those without forms included. -/
theorem lists_merge (table other : Synonyms) : (table.merge other).lists canonical = true ↔
    other.lists canonical = true ∨ table.lists canonical = true := by
  have hmerge : table.merge other =
      other.forms.toList.foldl (fun table entry => table.extend entry.1 entry.2) table := rfl
  rw [hmerge, lists_foldl_extend]
  refine or_congr ?_ Iff.rfl
  simp only [lists_iff, ExtTreeMap.mem_toList_iff_getElem?_eq_some, get?]

/-- Tables that list the same canonical values and the same pairs are equal. -/
theorem ext_lists_has
    (hlists : ∀ canonical, table.lists canonical = true ↔ other.lists canonical = true)
    (hhas : ∀ canonical surface,
      table.has canonical surface = true ↔ other.has canonical surface = true) :
    table = other := by
  have hget (canonical : String) : table.get? canonical = other.get? canonical := by
    have hlists := hlists canonical
    have hhas := hhas canonical
    simp only [lists, has_iff] at hlists hhas
    cases htable : table.get? canonical with
    | none =>
      rw [htable] at hlists
      exact (Option.not_isSome_iff_eq_none.mp fun h => by simpa using hlists.mpr h).symm
    | some forms =>
      rw [htable] at hlists hhas
      obtain ⟨others, hothers⟩ := Option.isSome_iff_exists.mp (hlists.mp rfl)
      rw [hothers] at hhas ⊢
      refine congrArg some (ExtTreeSet.ext_mem fun surface => ?_)
      simpa using hhas surface
  obtain ⟨forms⟩ := table
  obtain ⟨others⟩ := other
  exact congrArg Synonyms.mk (ExtTreeMap.ext_getElem? hget)

/-! ### The semilattice of tables -/

/-- The other table lists all that this one lists, canonical values without forms included. -/
structure Below (table other : Synonyms) : Prop where
  lists : ∀ canonical, table.lists canonical = true → other.lists canonical = true
  within : table.Within other

instance : PartialOrder Synonyms where
  le := Below
  le_refl table := ⟨fun _ h => h, .refl table⟩
  le_trans _ _ _ h h' := ⟨fun canonical => h'.lists canonical ∘ h.lists canonical,
    h.within.trans h'.within⟩
  le_antisymm _ _ h h' := ext_lists_has (fun canonical => ⟨h.lists canonical, h'.lists canonical⟩)
    fun canonical surface => ⟨h.within canonical surface, h'.within canonical surface⟩

instance : SemilatticeSup Synonyms where
  sup := merge
  le_sup_left table other :=
    ⟨fun _ h => (lists_merge table other).mpr (.inr h), within_merge table other⟩
  le_sup_right table other :=
    ⟨fun _ h => (lists_merge table other).mpr (.inl h), within_merge_right table other⟩
  sup_le table other _ h h' :=
    ⟨fun canonical hlists =>
      ((lists_merge table other).mp hlists).elim (h'.lists canonical) (h.lists canonical),
    fun canonical surface hhas =>
      ((has_merge table other).mp hhas).elim (h'.within canonical surface)
        (h.within canonical surface)⟩

instance : OrderBot Synonyms where
  bot := ∅
  bot_le _ := ⟨fun _ h => (not_lists_empty h).elim, fun _ _ h => (not_has_empty h).elim⟩

theorem merge_eq_sup (table other : Synonyms) : table.merge other = table ⊔ other := rfl

theorem empty_eq_bot : (∅ : Synonyms) = ⊥ := rfl

theorem lists_sup (tables : Multiset Synonyms) :
    tables.sup.lists canonical = true ↔ ∃ table ∈ tables, table.lists canonical = true := by
  induction tables using Multiset.induction_on with
  | empty => exact iff_of_false not_lists_empty (by simp)
  | cons table rest ih =>
    rw [Multiset.sup_cons, ← merge_eq_sup, lists_merge, ih]
    simp [or_comm]

theorem has_sup (tables : Multiset Synonyms) :
    tables.sup.has canonical surface = true ↔
      ∃ table ∈ tables, table.has canonical surface = true := by
  induction tables using Multiset.induction_on with
  | empty => exact iff_of_false not_has_empty (by simp)
  | cons table rest ih =>
    rw [Multiset.sup_cons, ← merge_eq_sup, has_merge, ih]
    simp [or_comm]

/-! ### Pairs -/

/-- The table with one form of one canonical value. -/
def pair (canonical surface : String) : Synonyms :=
  ⟨(∅ : ExtTreeMap _ _).insert canonical {surface}⟩

theorem lists_pair {key form : String} :
    (pair key form).lists canonical = true ↔ canonical = key :=
  (lists_insert ∅ key {form}).trans (or_iff_left not_lists_empty)

theorem has_pair {key form : String} :
    (pair key form).has canonical surface = true ↔ canonical = key ∧ surface = form := by
  refine (has_insert ∅ key {form}).trans ?_
  split
  · next heq => simp [heq, eq_comm (a := form)]
  · next hne => simp [Ne.symm hne, not_has_empty]

/-- Recording a pair merges the table with just that pair. -/
theorem record_eq_merge (table : Synonyms) (canonical surface : String) :
    table.record canonical surface = table.merge (pair canonical surface) := by
  refine ext_lists_has (fun other => ?_) fun other form => ?_
  · rw [record, lists_insert, lists_merge, lists_pair]
  · rw [has_record, has_merge, has_pair]

theorem snd_recordNew (table : Synonyms) (canonical surface : String) :
    (table.recordNew canonical surface).2 = table.record canonical surface := by
  show Synonyms.mk (table.forms.insert canonical (ExtTreeSet.containsThenInsert _ surface).2) = _
  rw [ExtTreeSet.containsThenInsert_snd]
  rfl

/-- A recorded pair is told to be new exactly if it was not listed. -/
theorem fst_recordNew (table : Synonyms) (canonical surface : String) :
    (table.recordNew canonical surface).1 = true ↔ ¬table.has canonical surface = true := by
  show (!(ExtTreeSet.containsThenInsert _ surface).1) = true ↔ _
  rw [ExtTreeSet.containsThenInsert_fst, Bool.not_eq_true', ← Bool.not_eq_true,
    ExtTreeSet.contains_iff_mem, mem_getD_iff]

/-! ### Divided work -/

/-- A step in filling a table. -/
inductive Step where
  | record (canonical surface : String)
  | merge (other : Synonyms)

namespace Step

/-- The table after the step. -/
def apply (table : Synonyms) : Step → Synonyms
  | record canonical surface => (table.recordNew canonical surface).2
  | merge other => table.merge other

/-- What the step adds. -/
def added : Step → Synonyms
  | record canonical surface => pair canonical surface
  | merge other => other

theorem apply_eq_sup (table : Synonyms) (step : Step) : step.apply table = table ⊔ step.added := by
  cases step with
  | record canonical surface =>
    rw [apply, snd_recordNew, record_eq_merge]
    rfl
  | merge other => rfl

end Step

/-- The table that a worker fills by its steps. -/
def filled (steps : List Step) : Synonyms := steps.foldl Step.apply ∅

theorem foldl_apply (steps : List Step) (table : Synonyms) :
    steps.foldl Step.apply table = table ⊔ (Multiset.map Step.added steps).sup := by
  induction steps generalizing table with
  | nil => simp
  | cons step rest ih =>
    rw [List.foldl_cons, ih, Step.apply_eq_sup, sup_assoc, ← Multiset.cons_coe, Multiset.map_cons,
      Multiset.sup_cons]

theorem filled_eq_sup (steps : List Step) :
    filled steps = (Multiset.map Step.added steps).sup := by
  rw [filled, foldl_apply, empty_eq_bot, bot_sup_eq]

/-- The steps of all workers. -/
def Step.ofAll (work : Grouping (List Step)) : Multiset Step :=
  work.items.bind fun steps => (steps : Multiset Step)

/-- The table in which the tables of the workers are merged as the grouping says. -/
def merged (work : Grouping (List Step)) : Synonyms := work.combine merge ∅ filled

theorem merged_eq_sup (work : Grouping (List Step)) :
    merged work = ((Step.ofAll work).map Step.added).sup := by
  have hcomm : Std.Commutative merge := ⟨sup_comm⟩
  have hassoc : Std.Associative merge := ⟨sup_assoc⟩
  have hmerged : merged work = (work.items.map filled).sup :=
    work.combine_eq_fold (fun table => sup_bot_eq table) filled
  rw [hmerged, Step.ofAll]
  induction work.items using Multiset.induction_on with
  | empty => rfl
  | cons steps rest ih =>
    rw [Multiset.map_cons, Multiset.sup_cons, Multiset.cons_bind, Multiset.map_add,
      Multiset.sup_add, ih, filled_eq_sup]

/-- The table lists just what the steps add: their pairs, and their canonical values even without
forms. -/
structure Unites (table : Synonyms) (steps : Multiset Step) : Prop where
  has_iff : ∀ canonical surface, table.has canonical surface = true ↔
    ∃ step ∈ steps, step.added.has canonical surface = true
  lists_iff : ∀ canonical, table.lists canonical = true ↔
    ∃ step ∈ steps, step.added.lists canonical = true

theorem unites_merged (work : Grouping (List Step)) : (merged work).Unites (Step.ofAll work) := by
  rw [merged_eq_sup]
  refine ⟨fun canonical surface => ?_, fun canonical => ?_⟩
  · rw [has_sup]
    simp
  · rw [lists_sup]
    simp

/-- Merging is associative, commutative and idempotent, the empty table changes nothing, and a
record is a merge that tells whether its pair is new; so however the steps are divided among
workers, and however their tables are merged, the outcome lists what the steps add, and is the
same. -/
theorem merge_laws_and_unites :
    (∀ first second third : Synonyms,
      (first.merge second).merge third = first.merge (second.merge third)) ∧
    (∀ first second : Synonyms, first.merge second = second.merge first) ∧
    (∀ table : Synonyms,
      table.merge table = table ∧ table.merge ∅ = table ∧ (∅ : Synonyms).merge table = table) ∧
    (∀ (table : Synonyms) (canonical surface : String),
      (table.recordNew canonical surface).2 = table.merge (pair canonical surface) ∧
        ((table.recordNew canonical surface).1 = true ↔ ¬table.has canonical surface = true)) ∧
    (∀ work : Grouping (List Step), (merged work).Unites (Step.ofAll work)) ∧
    ∀ work other : Grouping (List Step), Step.ofAll work = Step.ofAll other →
      merged work = merged other := by
  refine ⟨sup_assoc, sup_comm, fun table => ⟨sup_idem table, sup_bot_eq table, bot_sup_eq table⟩,
    fun table canonical surface => ⟨?_, table.fst_recordNew canonical surface⟩, unites_merged,
    fun work other h => ?_⟩
  · rw [snd_recordNew, record_eq_merge]
  · rw [merged_eq_sup, merged_eq_sup, h]

end Synonyms

/-- The synonyms of a run are those of its intents, whatever the order in which these are done. -/
theorem Generation.synonyms_ofOutcomes (seed : UInt64) (warnings : List Warning)
    {outcomes others : List IntentOutcome} (h : outcomes.Perm others) :
    (ofOutcomes seed warnings outcomes).synonyms = (ofOutcomes seed warnings others).synonyms := by
  refine h.foldl_eq' (fun first _ second _ table => ?_) ∅
  exact sup_right_comm table first.synonyms second.synonyms

/-! Three steps that one worker or three workers do; one of them brings a value without forms. -/

namespace Travellers

open Synonyms

def rome : Synonyms := ⟨(∅ : ExtTreeMap _ _).insert "Rome" ∅⟩

def alone : Grouping (List Step) :=
  .single [.record "Paris" "paris", .merge rome, .record "Paris" "city of light"]

def together : Grouping (List Step) :=
  .both (.single [.record "Paris" "city of light"])
    (.both (.single [.merge rome]) (.single [.record "Paris" "paris"]))

theorem merged_alone_eq_together :
    Step.ofAll alone = Step.ofAll together ∧ merged alone = merged together ∧
      (merged together).lists "Rome" = true := by
  have hsteps : Step.ofAll alone = Step.ofAll together :=
    Multiset.coe_eq_coe.mpr (List.reverse_perm _).symm
  obtain ⟨-, -, -, -, hunites, hsame⟩ := merge_laws_and_unites
  refine ⟨hsteps, hsame alone together hsteps, ((hunites together).lists_iff "Rome").mpr ?_⟩
  exact ⟨.merge rome, hsteps ▸ by simp [Step.ofAll, alone, Grouping.items], by decide +kernel⟩

end Travellers

end Phrasebook
