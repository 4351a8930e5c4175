import Phrasebook.Proofs.Records
import Phrasebook.Template.Json

/-! Templates are read back as they were written, in either layout. What is left out of the text of a
value is what its reader starts with: a missing option, an empty list of variations. -/

namespace Phrasebook

open Json Std

theorem Json.readUInt8_reading (percent : UInt8) :
    (Json.number percent.toNat).reading.readUInt8 = .ok percent := by
  have hless : percent.toUInt64 < 256 := by
    rw [UInt64.lt_iff_toNat_lt, UInt8.toNat_toUInt64]
    exact percent.toNat_lt
  show (if UInt64.ofNat percent.toNat < 256 then Except.ok (UInt64.ofNat percent.toNat).toUInt8
    else throw Fault.mismatch) = _
  rw [UInt64.ofNat_uInt8ToNat, if_pos hless, UInt8.toUInt8_toUInt64]

theorem Json.readUInt64_reading (count : UInt64) :
    (Json.number count.toNat).reading.readUInt64 = .ok count :=
  congrArg Except.ok (UInt64.ofNat_toNat)

namespace UnitKind

theorem read_toJson (origin : Origin) (kind : UnitKind) :
    read origin kind.toJson.reading = .ok kind := by
  rw [toJson, reading, read, read.ofWord, ofLabel?_label]
  rfl

end UnitKind

namespace Modifiers

theorem read_toJson (origin : Origin) (modifiers : Modifiers) :
    read origin modifiers.toJson.reading = .ok modifiers := by
  simp only [toJson, List.append_assoc, List.cons_append, List.nil_append]
  refine readRecord_of_fills ?_ ?_
  · exact .optional rfl <| .optional rfl <| .nullable (fun _ => rfl) rfl <|
      .optional (readUInt8_reading _) <| .optional rfl <| .lastNullable (fun _ => rfl) rfl
  · simp [Field.optional, Field.nullable]

end Modifiers

namespace Reference

variable {whole : Nat}

theorem fills_members (origin : Origin) (reference : Reference) :
    Field.Fills (fields origin whole) reference.members unfilled reference := by
  simp only [members, List.cons_append, List.nil_append]
  exact .required (UnitKind.read_toJson origin _) <| .required rfl <|
    .nullable (fun _ => rfl) rfl <| .optional (Modifiers.read_toJson origin _) <| .nil _

theorem type_notMem_members (reference : Reference) : "type" ∉ reference.members.map (·.1) := by
  cases hvariation : reference.variation <;> simp [members, memberIfSome, hvariation]

theorem nodup_fields (origin : Origin) : ("type" :: (fields origin whole).map (·.name)).Nodup := by
  simp [fields, Field.required, Field.optional, Field.nullable]

theorem read_toJson (origin : Origin) (reference : Reference) :
    read origin reference.toJson.reading = .ok reference :=
  readRecord_of_fills (fills_members origin reference) (nodup_fields origin).tail

end Reference

namespace ContentTag

theorem read_label (origin : Origin) (tag : ContentTag) :
    read origin (.string tag.label) = .ok tag := by
  cases tag <;> rfl

theorem inMembers_of_found {origin : Origin} {tag : ContentTag} {members : List (String × Json)}
    (hnames : "type" ∉ members.map (·.1)) :
    find.inMembers origin (membersRead members) none (some tag) = .ok tag := by
  induction members with
  | nil => rfl
  | cons member members ih =>
    obtain ⟨name, value⟩ := member
    rw [List.map_cons, List.mem_cons, not_or] at hnames
    have hname : name ≠ "type" := Ne.symm hnames.1
    rw [membersRead, find.inMembers, hold_reading value]
    · exact ih hnames.2
    · exact fun _ _ => hname
    · exact fun _ => hname

/-- The tag stands first, and nothing else is named like it. -/
theorem find_reading {origin : Origin} (tag : ContentTag) {label : String}
    {members : List (String × Json)} (hlabel : tag.label = label)
    (hnames : "type" ∉ members.map (·.1)) :
    find origin (Json.object (("type", .string label) :: members)).reading = .ok tag := by
  rw [← hlabel, reading, membersRead, find, find.inMembers, reading, read_label]
  exact inMembers_of_found hnames

end ContentTag

/-! ### Contents and rules

What is inside a content is read as a value that is held whole, whatever the content is read from. -/

theorem Content.toJsonAll_eq_map (contents : List Content) :
    toJsonAll contents = contents.map toJson := by
  induction contents with
  | nil => rfl
  | cons content contents ih => rw [toJsonAll, ih, List.map_cons]

theorem Rule.toJsonAll_eq_map (rules : List Rule) : toJsonAll rules = rules.map toJson := by
  induction rules with
  | nil => rfl
  | cons rule rules ih => rw [toJsonAll, ih, List.map_cons]

mutual

/-- The tag is found, the rest held, and then the fields of the tag are filled in order. -/
theorem Content.read_toJson (origin : Origin) :
    ∀ content : Content, Content.read origin content.toJson.reading = .ok content
  | .word text => by
    rw [Content.toJson, Content.read]
    refine bind_eq_ok_iff.mpr ⟨_, ContentTag.find_reading .word (by decide) (by simp), ?_⟩
    refine congrArg (Content.word <$> ·) (readTagged_of_fills ?_ ?_)
    · exact .required rfl (.nil _)
    · simp [Field.required]
  | .wordGroup text modifiers => by
    rw [Content.toJson, Content.read]
    refine bind_eq_ok_iff.mpr ⟨_, ContentTag.find_reading .wordGroup (by decide) (by simp), ?_⟩
    refine bind_eq_ok_iff.mpr ⟨(text, modifiers), readTagged_of_fills ?_ ?_, rfl⟩
    · exact .required rfl (.optional (Modifiers.read_toJson .held modifiers) (.nil _))
    · simp [Field.required, Field.optional]
  | .choice branches modifiers => by
    have hbranches := Rule.read_toJsonAll .held branches
    rw [Content.toJson, Content.read, Rule.toJsonAll_eq_map]
    refine bind_eq_ok_iff.mpr ⟨_, ContentTag.find_reading .choice (by decide) (by simp), ?_⟩
    refine bind_eq_ok_iff.mpr ⟨(branches, modifiers), readTagged_of_fills ?_ ?_, rfl⟩
    · exact .items hbranches (.optional (Modifiers.read_toJson .held modifiers) (.nil _))
    · simp [Field.optional]
  | .reference ref => by
    rw [Content.toJson, Content.read]
    refine bind_eq_ok_iff.mpr
      ⟨_, ContentTag.find_reading .reference (by decide) ref.type_notMem_members, ?_⟩
    refine congrArg (Content.reference <$> ·) (readTagged_of_fills ?_ ?_)
    · exact Reference.fills_members .held ref
    · exact Reference.nodup_fields .held

theorem Content.read_toJsonAll (origin : Origin) :
    ∀ contents : List Content, ∀ content ∈ contents,
      Content.read origin content.toJson.reading = .ok content
  | [], _, hcontent => nomatch hcontent
  | first :: rest, content, hcontent => by
    rcases List.mem_cons.mp hcontent with hfirst | hcontent
    · exact hfirst ▸ Content.read_toJson origin first
    · exact Content.read_toJsonAll origin rest content hcontent

theorem Rule.read_toJson (origin : Origin) :
    ∀ rule : Rule, Rule.read origin rule.toJson.reading = .ok rule
  | { contents, slotValue } => by
    have hcontents := Content.read_toJsonAll origin contents
    rw [Rule.toJson, Rule.read, Content.toJsonAll_eq_map]
    refine readRecord_of_fills ?_ ?_
    · exact .items hcontents (.lastNullable (fun _ => rfl) rfl)
    · simp [Field.nullable, Field.optional]

theorem Rule.read_toJsonAll (origin : Origin) :
    ∀ rules : List Rule, ∀ rule ∈ rules, Rule.read origin rule.toJson.reading = .ok rule
  | [], _, hrule => nomatch hrule
  | first :: rest, rule, hrule => by
    rcases List.mem_cons.mp hrule with hfirst | hrule
    · exact hfirst ▸ Rule.read_toJson origin first
    · exact Rule.read_toJsonAll origin rest rule hrule

end

/-! ### Units and templates -/

/-- A map is made again of its list of entries, which has no name twice. -/
theorem ofList_toList {α : Type} (entries : ExtTreeMap String α) :
    ExtTreeMap.ofList entries.toList = entries := by
  refine ExtTreeMap.ext_getElem? fun name => ?_
  cases hentry : entries[name]? with
  | some value =>
    exact ExtTreeMap.getElem?_ofList_of_mem Std.ReflCmp.compare_self
      ExtTreeMap.distinct_keys_toList (ExtTreeMap.mem_toList_iff_getElem?_eq_some.mpr hentry)
  | none =>
    have hfresh : name ∉ entries.toList.map (·.1) := by
      intro hname
      obtain ⟨entry, hmem, rfl⟩ := List.mem_map.mp hname
      have hfound := ExtTreeMap.mem_toList_iff_getElem?_eq_some.mp hmem
      exact Option.some_ne_none _ (hfound.symm.trans hentry)
    exact ExtTreeMap.getElem?_ofList_of_contains_eq_false (by simpa using hfresh)

namespace Definition

theorem readRules_toJsonAll (origin : Origin) (rules : List Rule) :
    readRules origin (Json.array (Rule.toJsonAll rules)).reading = .ok rules := by
  rw [Rule.toJsonAll_eq_map]
  exact readList_map fun rule hrule _ => Rule.read_toJsonAll origin rules rule hrule

theorem read_toJson (origin : Origin) (definition : Definition) :
    read origin definition.toJson.reading = .ok definition := by
  have hcount : ∀ count : UInt64,
      Reading.readOption Reading.readUInt64 (Json.number count.toNat).reading = .ok (some count) :=
    fun count => congrArg (some <$> ·) (readUInt64_reading count)
  have hvariations : (Json.object (definition.variations.toList.map fun entry =>
      (entry.1, .array (Rule.toJsonAll entry.2)))).reading.readEntries
        (fun part => readRules origin part.val) = .ok definition.variations.toList :=
    readEntries_map (fun _ _ => rfl) fun entry _ _ => readRules_toJsonAll origin entry.2
  -- The variations are first read to a map made of their list.
  have hread : read origin definition.toJson.reading =
      .ok { definition with variations := ExtTreeMap.ofList definition.variations.toList } := by
    simp only [toJson, List.append_assoc, List.cons_append, List.nil_append]
    refine readRecord_of_fills ?_ ?_
    · refine .required (UnitKind.read_toJson origin _) <| .required rfl <|
        .nullable (fun _ => rfl) rfl <| .optional rfl <|
        .required (readRules_toJsonAll origin _) <| .optionalUnless hvariations (fun hempty => ?_) <|
        .nullable hcount rfl <| .lastNullable hcount rfl
      rw [ofList_toList, ExtTreeMap.isEmpty_iff.mp hempty]
      rfl
    · simp [Field.required, Field.optional, Field.nullable]
  rw [hread, ofList_toList]

end Definition

namespace Template

theorem read_toJson (origin : Origin) (template : Template) :
    read origin template.toJson.reading = .ok template := by
  refine readRecord_of_fills ?_ (List.pairwise_singleton _ _)
  exact .items (fun definition _ => Definition.read_toJson origin definition) (.nil _)

end Template

/-! ### Texts -/

theorem Modifiers.isNatural_toJson (modifiers : Modifiers) : modifiers.toJson.IsNatural := by
  have hpercent : ∃ count : UInt64, (modifiers.inclusionPercent.toNat : Int) = count.toNat :=
    ⟨modifiers.inclusionPercent.toUInt64, by rw [UInt8.toNat_toUInt64]⟩
  simp only [toJson, IsNatural, MembersNatural, membersNatural_append, membersNatural_text, hpercent,
    and_self]

theorem Reference.membersNatural_members (reference : Reference) :
    MembersNatural reference.members := by
  simp [members, IsNatural, MembersNatural, membersNatural_append, membersNatural_text,
    UnitKind.toJson, Modifiers.isNatural_toJson]

mutual

theorem Content.isNatural_toJson : ∀ content : Content, content.toJson.IsNatural
  | .word _ => by simp [Content.toJson, IsNatural, MembersNatural]
  | .wordGroup _ modifiers => by
    simp [Content.toJson, IsNatural, MembersNatural, modifiers.isNatural_toJson]
  | .choice branches modifiers => by
    simp [Content.toJson, IsNatural, MembersNatural, modifiers.isNatural_toJson,
      Rule.areNatural_toJsonAll branches]
  | .reference ref => by
    simp [Content.toJson, IsNatural, MembersNatural, ref.membersNatural_members]

theorem Content.areNatural_toJsonAll : ∀ contents, AreNatural (Content.toJsonAll contents)
  | [] => trivial
  | content :: rest => ⟨content.isNatural_toJson, Content.areNatural_toJsonAll rest⟩

theorem Rule.isNatural_toJson : ∀ rule : Rule, rule.toJson.IsNatural
  | { contents, slotValue } =>
    ⟨Content.areNatural_toJsonAll contents, membersNatural_text "slot_value" slotValue⟩

theorem Rule.areNatural_toJsonAll : ∀ rules, AreNatural (Rule.toJsonAll rules)
  | [] => trivial
  | rule :: rest => ⟨rule.isNatural_toJson, Rule.areNatural_toJsonAll rest⟩

end

theorem Definition.isNatural_toJson (definition : Definition) : definition.toJson.IsNatural := by
  have hvariations : MembersNatural (definition.variations.toList.map fun entry =>
      (entry.1, .array (Rule.toJsonAll entry.2))) := by
    refine membersNatural_iff.mpr fun member hmember => ?_
    obtain ⟨entry, -, rfl⟩ := List.mem_map.mp hmember
    exact Rule.areNatural_toJsonAll entry.2
  cases hempty : definition.variations.isEmpty <;>
    simp [toJson, IsNatural, MembersNatural, membersNatural_append, membersNatural_text,
      membersNatural_count, UnitKind.toJson, hempty, hvariations, Rule.areNatural_toJsonAll]

theorem Template.isNatural_toJson (template : Template) : template.toJson.IsNatural := by
  simp [toJson, IsNatural, MembersNatural, Json.ofList, areNatural_iff, Definition.isNatural_toJson]

namespace Template

/-- The written text of a template is read back as the template, in both layouts, if its brackets nest
no deeper than can be read; written again, it is the same text. -/
theorem ofText_toJson (template : Template) (hdepth : template.toJson.depth ≤ Unclosed.maxDepth) :
    (ofText template.toJson.compact = .ok template ∧ ofText template.toJson.pretty = .ok template) ∧
    ((·.toJson.compact) <$> ofText template.toJson.compact = .ok template.toJson.compact ∧
      (·.toJson.pretty) <$> ofText template.toJson.pretty = .ok template.toJson.pretty) := by
  have hcompact : ofText template.toJson.compact = .ok template :=
    (readText_compact _ template.isNatural_toJson hdepth).trans (read_toJson .text template)
  have hpretty : ofText template.toJson.pretty = .ok template :=
    (readText_pretty _ template.isNatural_toJson hdepth).trans (read_toJson .text template)
  refine ⟨⟨hcompact, hpretty⟩, ?_, ?_⟩
  · rw [hcompact]
    rfl
  · rw [hpretty]
    rfl

end Template

/-! A template with something of everything that is written or left out: choices inside a choice, a
variation, a count, and a text with quotes, a backslash and control characters. -/

namespace Correspondence

def closing : Definition where
  key := ⟨.shared, "closing"⟩
  argumentName := some "name"
  rules := [{ contents := [.word "yours, $name"] }]
  variations := (∅ : ExtTreeMap String (List Rule)).insert "formal"
    [{ contents := [.word "\"faithfully\"\n\t\x01\\"] }]

def writing : Definition where
  key := ⟨.intent, "write"⟩
  varyCase := true
  rules := [{
    contents := [
      .choice [{
          contents := [.choice [{ contents := [.word "dear ♥"] }] { varyCase := true }]
          slotValue := some "dear" }] (.optional "kind" 100),
      .wordGroup "friend" { leadingSpace := true, randomOpposite := true },
      .reference {
        target := ⟨.shared, "closing"⟩
        variation := some "formal"
        modifiers := { argumentValue := some "Ada" } }] }]
  requestedCount := some 18446744073709551615

def template : Template := { units := [closing, writing] }

theorem ofText_toJson_template :
    Template.ofText template.toJson.compact = .ok template ∧
      Template.ofText template.toJson.pretty = .ok template :=
  (Template.ofText_toJson template (by decide +kernel)).1

end Correspondence

end Phrasebook
