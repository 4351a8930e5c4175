import Mathlib.Data.List.Forall2
import Phrasebook.Json.Record
import Phrasebook.Proofs.Ends
import Phrasebook.Proofs.Readings

/-! Reading back a record. Its fields are named apart, and its members stand in the order of the
fields; a field that may be left out is missing just if the record has what it starts with there. -/

namespace Phrasebook

/-- What succeeds for each item of a list succeeds for the list, in order. -/
theorem mapM_attachWith {ε α β : Type} {P : α → Prop} {f : { a // P a } → Except ε β}
    {items : List α} {results : List β}
    (h : List.Forall₂ (fun item result => ∀ hitem, f ⟨item, hitem⟩ = .ok result) items results)
    (hitems : ∀ item ∈ items, P item) : (items.attachWith P hitems).mapM f = .ok results := by
  induction h with
  | nil => rfl
  | cons hfirst _ ih =>
    rw [List.attachWith_cons, List.mapM_cons, hfirst, ih]
    rfl

namespace Json

/-! ### Lists and entries -/

theorem readings_map {α : Type} (f : α → Json) (values : List α) :
    readings (values.map f) = values.map fun value => (f value).reading := by
  induction values with
  | nil => rfl
  | cons value values ih => exact congrArg (_ :: ·) ih

theorem membersRead_map {α : Type} (f : α → String × Json) (entries : List α) :
    membersRead (entries.map f) = entries.map fun entry => ⟨some (f entry).1, (f entry).2.reading⟩ := by
  induction entries with
  | nil => rfl
  | cons entry entries ih => exact congrArg (_ :: ·) ih

variable {α : Type}

theorem Reading.readList_array {items : List Reading} {values : List α}
    {read : Part (sizeOf (Reading.array items none)) → Except Fault α}
    (h : List.Forall₂ (fun item value => ∀ hpart, read ⟨item, hpart⟩ = .ok value) items values) :
    (Reading.array items none).readList read = .ok values := by
  rw [readList, mapM_attachWith h]
  rfl

/-- Items that are read back one by one are read back in order. -/
theorem readList_map {toJson : α → Json} {values : List α}
    {read : Reading.Part (sizeOf (array (values.map toJson)).reading) → Except Fault α}
    (hread : ∀ value ∈ values, ∀ hpart, read ⟨(toJson value).reading, hpart⟩ = .ok value) :
    (array (values.map toJson)).reading.readList read = .ok values := by
  have hitems : List.Forall₂ (fun item value => ∀ hpart, read ⟨item, hpart⟩ = .ok value)
      (readings (values.map toJson)) values := by
    rw [readings_map, List.forall₂_map_left_iff, List.forall₂_same]
    exact hread
  exact Reading.readList_array hitems

theorem Reading.readEntries_object {members : List Member} {entries : List (String × α)}
    {read : Part (sizeOf (Reading.object members none)) → Except Fault α}
    (h : List.Forall₂ (fun member entry => member.name = some entry.1 ∧
      ∀ hpart, read ⟨member.value, hpart⟩ = .ok entry.2) members entries) :
    (Reading.object members none).readEntries read = .ok entries := by
  rw [readEntries, mapM_attachWith (h.imp fun member entry hentry _ => ?_)]
  · rfl
  · simp only [hentry.1, hentry.2]
    rfl

/-- Entries whose values are read back one by one are read back in order. -/
theorem readEntries_map {toMember : String × α → String × Json} {entries : List (String × α)}
    {read : Reading.Part (sizeOf (object (entries.map toMember)).reading) → Except Fault α}
    (hname : ∀ entry ∈ entries, (toMember entry).1 = entry.1)
    (hread : ∀ entry ∈ entries, ∀ hpart, read ⟨(toMember entry).2.reading, hpart⟩ = .ok entry.2) :
    (object (entries.map toMember)).reading.readEntries read = .ok entries := by
  have hmembers : List.Forall₂ (fun (member : Member) entry => member.name = some entry.1 ∧
      ∀ hpart, read ⟨member.value, hpart⟩ = .ok entry.2) (membersRead (entries.map toMember))
      entries := by
    rw [membersRead_map, List.forall₂_map_left_iff, List.forall₂_same]
    exact fun entry hentry => ⟨congrArg some (hname entry hentry), hread entry hentry⟩
  exact Reading.readEntries_object hmembers

/-! ### Fields -/

namespace Field

variable {Record : Type} {whole : Nat} {α : Type}

/-- The members give values to the fields in their order, leaving out some that may be left out, and
bring one record to the other. -/
inductive Fills : List (Field Record whole) → List (String × Json) → Record → Record → Prop
  | nil (record : Record) : Fills [] [] record record
  | given {field : Field Record whole} {fields : List (Field Record whole)} {value : Json}
      {members : List (String × Json)} {change : Record → Record} {record result : Record} :
      (∀ hpart, field.read ⟨value.reading, hpart⟩ = .ok change) →
      Fills fields members (change record) result →
      Fills (field :: fields) ((field.name, value) :: members) record result
  | missing {field : Field Record whole} {fields : List (Field Record whole)}
      {members : List (String × Json)} {record result : Record} : field.isRequired = false →
      Fills fields members record result → Fills (field :: fields) members record result

namespace Fills

variable {fields : List (Field Record whole)} {members : List (String × Json)}
  {record result : Record} {name : String} {read : Reading → Except Fault α}

theorem required {set : α → Record → Record} {value : Json} {a : α}
    (hread : read value.reading = .ok a) (h : Fills fields members (set a record) result) :
    Fills (.required name read set :: fields) ((name, value) :: members) record result :=
  .given (fun _ => congrArg (set <$> ·) hread) h

theorem optional {set : α → Record → Record} {value : Json} {a : α}
    (hread : read value.reading = .ok a) (h : Fills fields members (set a record) result) :
    Fills (.optional name read set :: fields) ((name, value) :: members) record result :=
  .given (fun _ => congrArg (set <$> ·) hread) h

/-- A member with the items of a list. -/
theorem items {isRequired : Bool} {set : List α → Record → Record} {toJson : α → Json}
    {values : List α} (hread : ∀ value ∈ values, read (toJson value).reading = .ok value)
    (h : Fills fields members (set values record) result) :
    Fills
      ({ name
         isRequired
         read := fun part => do return set (← part.val.readList fun item => read item.val) } :: fields)
      ((name, array (values.map toJson)) :: members) record result :=
  .given (fun _ => bind_eq_ok_iff.mpr ⟨_, readList_map fun value hvalue _ => hread value hvalue, rfl⟩) h

/-- A member that may be left out where the record has its value from the start. -/
theorem optionalUnless {set : α → Record → Record} {omitted : Prop} [Decidable omitted]
    {value : Json} {a : α} (hread : read value.reading = .ok a)
    (hstart : omitted → set a record = record) (h : Fills fields members (set a record) result) :
    Fills (.optional name read set :: fields)
      ((if omitted then [] else [(name, value)]) ++ members) record result := by
  by_cases homitted : omitted
  · rw [if_pos homitted]
    exact .missing rfl (hstart homitted ▸ h)
  · rw [if_neg homitted]
    exact .optional hread h

/-- A member that is left out just if there is no value. -/
theorem nullable {set : Option α → Record → Record} {toJson : α → Json} {value : Option α}
    (hread : ∀ a, Reading.readOption read (toJson a).reading = .ok (some a))
    (hstart : set none record = record) (h : Fills fields members (set value record) result) :
    Fills (.nullable name read set :: fields) (memberIfSome name toJson value ++ members) record
      result := by
  cases value with
  | none => exact .missing rfl (hstart ▸ h)
  | some a => exact .optional (hread a) h

theorem lastNullable {set : Option α → Record → Record} {toJson : α → Json} {value : Option α}
    (hread : ∀ a, Reading.readOption read (toJson a).reading = .ok (some a))
    (hstart : set none record = record) :
    Fills [(.nullable name read set : Field Record whole)] (memberIfSome name toJson value) record
      (set value record) := by
  simpa using nullable hread hstart (.nil (set value record))

end Fills

/-- Members in the order of the fields bring the record to its end, behind the fields that are past. -/
theorem Fills.fillFromMembers_eq {rest : List (Field Record whole)} {members : List (String × Json)}
    {record result : Record} (h : Fills rest members record result)
    (past : List (Field Record whole)) (seen : List String)
    (hnames : ((past ++ rest).map (·.name)).Nodup) (hseen : ∀ name ∈ seen, name ∈ past.map (·.name))
    (hrequired : ∀ field ∈ past, field.isRequired → field.name ∈ seen)
    (hparts : ∀ member ∈ membersRead members, sizeOf member.value < whole) :
    fillFromMembers (past ++ rest) ((membersRead members).attachWith _ hparts) none seen record =
      .ok result := by
  -- Names are looked up among all fields, so those that were passed are kept in `past`.
  induction h generalizing past seen with
  | nil record =>
    have hnone : ((past ++ []).any fun field => field.isRequired && !seen.contains field.name) =
        false := by
      simpa using hrequired
    simp only [membersRead, List.attachWith_nil, fillFromMembers, hnone]
    rfl
  | @given field rest value members change record result hread _ ih =>
    have hmiddle : past ++ field :: rest = (past ++ [field]) ++ rest := by simp
    have hfresh : field.name ∉ past.map (·.name) := by
      rw [List.map_append, List.nodup_append] at hnames
      exact fun hmem => hnames.2.2 _ hmem _ List.mem_cons_self rfl
    have hfind : (past ++ field :: rest).find? (·.name = field.name) = some field := by
      refine List.find?_eq_some_iff_append.mpr ⟨by simp, past, rest, rfl, fun other hother => ?_⟩
      have hother : other.name ∈ past.map (·.name) := List.mem_map_of_mem hother
      simpa using fun hname : other.name = field.name => hfresh (hname ▸ hother)
    have hnew : ¬seen.contains field.name := fun hmem =>
      hfresh (hseen _ (List.contains_iff_mem.mp hmem))
    simp only [membersRead, List.attachWith_cons, fillFromMembers, hfind, if_neg hnew, hread]
    rw [hmiddle] at hnames ⊢
    refine ih _ _ hnames (fun name hname => ?_) (fun other hother hneeded => ?_) _
    · rw [List.map_append]
      rcases List.mem_cons.mp hname with rfl | hname
      · exact List.mem_append_right _ List.mem_cons_self
      · exact List.mem_append_left _ (hseen name hname)
    · rcases List.mem_append.mp hother with hpast | hlast
      · exact List.mem_cons_of_mem _ (hrequired other hpast hneeded)
      · exact List.mem_singleton.mp hlast ▸ List.mem_cons_self
  | @missing field rest members record result hoptional _ ih =>
    have hmiddle : past ++ field :: rest = (past ++ [field]) ++ rest := by simp
    rw [hmiddle] at hnames ⊢
    refine ih _ _ hnames (fun name hname => ?_) (fun other hother hneeded => ?_) hparts
    · exact List.map_append ▸ List.mem_append_left _ (hseen name hname)
    · rcases List.mem_append.mp hother with hpast | hlast
      · exact hrequired other hpast hneeded
      · obtain rfl := List.mem_singleton.mp hlast
        simp [hoptional] at hneeded

/-- A member that no field is named like is passed over. -/
theorem fillFromMembers_unknown {fields : List (Field Record whole)} {name : String}
    {member : { member : Member // sizeOf member.value < whole }} (hname : member.val.name = some name)
    (hunknown : name ∉ fields.map (·.name)) (hpass : member.val.value.pass = .ok ())
    (members : List { member : Member // sizeOf member.value < whole }) (damage : Option Damage)
    (seen : List String) (record : Record) :
    fillFromMembers fields (member :: members) damage seen record =
      fillFromMembers fields members damage seen record := by
  have hfind : fields.find? (·.name = name) = none := by
    refine List.find?_eq_none.mpr fun field hfield => ?_
    have hfield : field.name ∈ fields.map (·.name) := List.mem_map_of_mem hfield
    simpa using fun heq : field.name = name => hunknown (heq ▸ hfield)
  simp only [fillFromMembers, hname, hfind, hpass]
  rfl

end Field

variable {Record α : Type} {start result : Record}

theorem readRecord_of_fills {origin : Origin} {members : List (String × Json)}
    {fields : List (Field Record (sizeOf (object members).reading))}
    (h : Field.Fills fields members start result) (hnames : (fields.map (·.name)).Nodup) :
    (object members).reading.readRecord origin fields start = .ok result :=
  h.fillFromMembers_eq [] [] hnames nofun nofun _

theorem Reading.readTagged_object {label : String} {members : List Member}
    {fields : List (Field Record (sizeOf (Reading.object (⟨"type", .string label⟩ :: members) none)))}
    (hunknown : "type" ∉ fields.map (·.name)) :
    (Reading.object (⟨"type", .string label⟩ :: members) none).readTagged fields start =
      Field.fillFromMembers fields (members.attachWith _ fun _ hmember =>
        sizeOf_member_value_lt (List.mem_cons_of_mem _ hmember)) none [] start := by
  rw [readTagged, List.attachWith_cons, Field.fillFromMembers_unknown rfl hunknown rfl]

/-- The tag of a tagged object is passed over when its fields are read. -/
theorem readTagged_of_fills {label : String} {members : List (String × Json)}
    {fields : List (Field Record (sizeOf (object (("type", string label) :: members)).reading))}
    (h : Field.Fills fields members start result)
    (hnames : ("type" :: fields.map (·.name)).Nodup) :
    (object (("type", string label) :: members)).reading.readTagged fields start = .ok result := by
  obtain ⟨htag, hnames⟩ := List.nodup_cons.mp hnames
  exact (Reading.readTagged_object htag).trans (h.fillFromMembers_eq [] [] hnames nofun nofun _)

end Json

end Phrasebook
