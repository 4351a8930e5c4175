import Phrasebook.Template
import Phrasebook.Json.Record
import Phrasebook.Json.Text

/-! Templates in JSON. Each type has a written form and a reader; contents are objects tagged by their
`type`, which are held whole until the tag is known. -/

namespace Phrasebook

open Json Std

namespace UnitKind

/-- A kind is a word, or an object with the word as its only name and null as its value. -/
def read (origin : Origin) : Reading → Except Fault UnitKind
  | .string text => ofWord text
  | .object [] damage => do
    Damage.meet damage
    throw (unexpected origin)
  | .object ({ name, value } :: more) damage => do
    match name with
    | none => throw .malformed
    | some text =>
      let kind ← ofWord text
      unless isUnit origin value do
        throw value.misfit
      unless more.isEmpty do
        throw (unexpected origin)
      match damage with
      | none => return kind
      | some damage => throw damage.asMember
  | .broken damage => throw damage.atFirstSight
  | _ => throw (unexpected origin)
where
  ofWord (text : String) : Except Fault UnitKind :=
    match ofLabel? text with
    | some kind => pure kind
    | none => throw .mismatch
  /-- In a text, only a word or an object may start here. -/
  unexpected (origin : Origin) : Fault := if origin = .text then .malformed else .mismatch
  /-- Whether a value is null, for which a held value may also be an object without members. -/
  isUnit (origin : Origin) : Reading → Bool
    | .null => true
    | .object [] none => origin = .held
    | _ => false

def toJson (kind : UnitKind) : Json := .string kind.label

end UnitKind

namespace UnitKey

def toJson (key : UnitKey) : Json :=
  .object [("kind", key.kind.toJson), ("name", .string key.name)]

end UnitKey

namespace Modifiers

def read (origin : Origin) (reading : Reading) : Except Fault Modifiers :=
  reading.readRecord origin [
    .optional "leading_space" Reading.readBool fun value m => { m with leadingSpace := value },
    .optional "case_generate" Reading.readBool fun value m => { m with varyCase := value },
    .nullable "random_key" Reading.readString fun value m => { m with randomKey := value },
    .optional "inclusion_percent" Reading.readUInt8 fun value m =>
      { m with inclusionPercent := value },
    .optional "random_opposite" Reading.readBool fun value m => { m with randomOpposite := value },
    .nullable "argument_value" Reading.readString fun value m =>
      { m with argumentValue := value }] {}

def toJson (modifiers : Modifiers) : Json :=
  .object <|
    [("leading_space", .bool modifiers.leadingSpace), ("case_generate", .bool modifiers.varyCase)]
    ++ memberIfSome "random_key" .string modifiers.randomKey
    ++ [("inclusion_percent", .number modifiers.inclusionPercent.toNat),
      ("random_opposite", .bool modifiers.randomOpposite)]
    ++ memberIfSome "argument_value" .string modifiers.argumentValue

end Modifiers

namespace Reference

/-- The fields of a reference in order. -/
def fields (origin : Origin) (whole : Nat) : List (Field Reference whole) := [
  .required "kind" (UnitKind.read origin) fun kind r =>
    { r with target := { r.target with kind } },
  .required "name" Reading.readString fun name r => { r with target := { r.target with name } },
  .nullable "variation" Reading.readString fun variation r => { r with variation },
  .optional "modifiers" (Modifiers.read origin) fun modifiers r => { r with modifiers }]

/-- A reference of which no field is given yet. -/
def unfilled : Reference := { target := ⟨.shared, ""⟩ }

def read (origin : Origin) (reading : Reading) : Except Fault Reference :=
  reading.readRecord origin (fields origin _) unfilled

def members (reference : Reference) : List (String × Json) :=
  [("kind", reference.target.kind.toJson), ("name", .string reference.target.name)]
    ++ memberIfSome "variation" .string reference.variation
    ++ [("modifiers", reference.modifiers.toJson)]

def toJson (reference : Reference) : Json := .object reference.members

end Reference

/-- The kinds of contents, as their tag tells them apart. -/
inductive ContentTag where
  | word
  | wordGroup
  | choice
  | reference
deriving DecidableEq, Repr

namespace ContentTag

def label : ContentTag → String
  | word => "word"
  | wordGroup => "word_group"
  | choice => "choice"
  | reference => "reference"

def all : List ContentTag := [word, wordGroup, choice, reference]

/-- A tag is a word; in a value held whole it may also be its place among the tags. -/
def read (origin : Origin) : Reading → Except Fault ContentTag
  | .string text =>
    match all.find? (·.label = text) with
    | some tag => pure tag
    | none => throw .mismatch
  | .natural place =>
    match origin, all[place.toNat]? with
    | .held, some tag => pure tag
    | _, _ => throw .mismatch
  | other => throw other.misfit

/-- Finds the tag of an object, or of an array by its first item, and holds all else. -/
def find (origin : Origin) : Reading → Except Fault ContentTag
  | .object members damage => inMembers members damage none
  | .array [] damage => do
    Damage.meet damage
    throw .mismatch
  | .array (item :: items) damage => do
    let tag ← read origin item
    Reading.holdItems items
    Damage.meet damage
    return tag
  | .unreadable _ => throw .malformed
  | other => throw other.misfit
where
  inMembers : List Member → Option Damage → Option ContentTag → Except Fault ContentTag
    | [], damage, found => do
      Damage.meet damage
      match found with
      | some tag => return tag
      | none => throw .mismatch
    | { name, value } :: members, damage, found =>
      match name, found with
      | none, _ => throw .malformed
      | some "type", some _ => throw .mismatch
      | some "type", none => do
        let tag ← read origin value
        inMembers members damage (some tag)
      | some _, _ => do
        value.hold
        inMembers members damage found

end ContentTag

mutual

/-- Reads a content: its tag first, then the fields that the tag calls for. -/
def Content.read (origin : Origin) (reading : Reading) : Except Fault Content := do
  match ← ContentTag.find origin reading with
  | .word =>
    .word <$> reading.readTagged [.required "text" Reading.readString fun text _ => text] ""
  | .wordGroup =>
    let (text, modifiers) ← reading.readTagged [
      .required "text" Reading.readString fun text (_, modifiers) => (text, modifiers),
      .optional "modifiers" (Modifiers.read .held) fun modifiers (text, _) => (text, modifiers)]
      ("", {})
    return .wordGroup text modifiers
  | .choice =>
    let (branches, modifiers) ← reading.readTagged [
      { name := "branches"
        isRequired := true
        read := fun part => do
          let branches ← part.val.readList fun item =>
            have := item.property
            have := part.property
            Rule.read .held item.val
          return fun (_, modifiers) => (branches, modifiers) },
      .optional "modifiers" (Modifiers.read .held) fun modifiers (branches, _) =>
        (branches, modifiers)]
      ([], {})
    return .choice branches modifiers
  | .reference => .reference <$> reading.readTagged (Reference.fields .held _) Reference.unfilled
termination_by sizeOf reading
decreasing_by omega

def Rule.read (origin : Origin) (reading : Reading) : Except Fault Rule :=
  reading.readRecord origin [
    { name := "contents"
      isRequired := true
      read := fun part => do
        let contents ← part.val.readList fun item =>
          have := item.property
          have := part.property
          Content.read origin item.val
        return fun rule => { rule with contents } },
    .nullable "slot_value" Reading.readString fun slotValue rule => { rule with slotValue }]
    {}
termination_by sizeOf reading
decreasing_by omega

end

mutual

def Content.toJson : Content → Json
  | .word text => .object [("type", .string "word"), ("text", .string text)]
  | .wordGroup text modifiers =>
    .object [("type", .string "word_group"), ("text", .string text),
      ("modifiers", modifiers.toJson)]
  | .choice branches modifiers =>
    .object [("type", .string "choice"), ("branches", .array (Rule.toJsonAll branches)),
      ("modifiers", modifiers.toJson)]
  | .reference ref => .object (("type", .string "reference") :: ref.members)

def Content.toJsonAll : List Content → List Json
  | [] => []
  | content :: rest => content.toJson :: Content.toJsonAll rest

def Rule.toJson : Rule → Json
  | { contents, slotValue } =>
    .object <| ("contents", .array (Content.toJsonAll contents)) ::
      memberIfSome "slot_value" .string slotValue

def Rule.toJsonAll : List Rule → List Json
  | [] => []
  | rule :: rest => rule.toJson :: Rule.toJsonAll rest

end

namespace Definition

/-- A unit of which no field is given yet. -/
def unfilled : Definition := { key := ⟨.shared, ""⟩, rules := [] }

def readRules (origin : Origin) (reading : Reading) : Except Fault (List Rule) :=
  reading.readList fun item => Rule.read origin item.val

def read (origin : Origin) (reading : Reading) : Except Fault Definition :=
  reading.readRecord origin [
    .required "kind" (UnitKind.read origin) fun kind d => { d with key := { d.key with kind } },
    .required "name" Reading.readString fun name d => { d with key := { d.key with name } },
    .nullable "argument_name" Reading.readString fun argumentName d => { d with argumentName },
    .optional "case_generate" Reading.readBool fun varyCase d => { d with varyCase },
    .required "rules" (readRules origin) fun rules d => { d with rules },
    .optional "variations" (fun reading => reading.readEntries fun part => readRules origin part.val)
      fun entries d => { d with variations := ExtTreeMap.ofList entries },
    .nullable "requested_count" Reading.readUInt64 fun requestedCount d =>
      { d with requestedCount },
    .nullable "testing_count" Reading.readUInt64 fun testingCount d => { d with testingCount }]
    unfilled

def toJson (definition : Definition) : Json :=
  .object <|
    [("kind", definition.key.kind.toJson), ("name", .string definition.key.name)]
    ++ memberIfSome "argument_name" .string definition.argumentName
    ++ [("case_generate", .bool definition.varyCase),
      ("rules", .array (Rule.toJsonAll definition.rules))]
    ++ (if definition.variations.isEmpty then [] else
      [("variations", .object (definition.variations.toList.map fun (name, rules) =>
        (name, .array (Rule.toJsonAll rules))))])
    ++ memberIfSome "requested_count" (fun count => .number count.toNat) definition.requestedCount
    ++ memberIfSome "testing_count" (fun count => .number count.toNat) definition.testingCount

end Definition

namespace Template

def read (origin : Origin) (reading : Reading) : Except Fault Template :=
  reading.readRecord origin [
    { name := "units"
      isRequired := true
      read := fun part => do
        let units ← part.val.readList fun item => Definition.read origin item.val
        return fun _ => { units } }]
    { units := [] }

def ofText (text : String) : Except Fault Template := readText (read .text) text

def toJson (template : Template) : Json :=
  .object [("units", .ofList Definition.toJson template.units)]

end Template

end Phrasebook
