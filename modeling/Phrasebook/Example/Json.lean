import Phrasebook.Json.Record
import Phrasebook.Synonyms

/-! Examples, mentions and synonyms in JSON. -/

namespace Phrasebook

open Json Std

namespace Mention

/-- A mention of which no field is given yet. -/
def unfilled : Mention := ⟨"", "", 0, 0⟩

def read (origin : Origin) (reading : Reading) : Except Fault Mention :=
  reading.readRecord origin [
    .required "slot_name" Reading.readString fun slotName m => { m with slotName },
    .required "canonical_value" Reading.readString fun canonicalValue m => { m with canonicalValue },
    .required "start" Reading.readNat fun start m => { m with start },
    .required "length" Reading.readNat fun length m => { m with length }]
    unfilled

def toJson (mention : Mention) : Json :=
  .object [("slot_name", .string mention.slotName),
    ("canonical_value", .string mention.canonicalValue),
    ("start", .number mention.start), ("length", .number mention.length)]

end Mention

namespace Example

def read (origin : Origin) (reading : Reading) : Except Fault Example :=
  reading.readRecord origin [
    .required "text" Reading.readString fun text e => { e with text },
    .required "entities"
      (fun reading => reading.readList fun item => Mention.read origin item.val)
      fun mentions e => { e with mentions }]
    {}

def toJson (e : Example) : Json :=
  .object [("text", .string e.text), ("entities", .ofList Mention.toJson e.mentions)]

end Example

namespace Synonyms

/-- Reads a table from an object with a list of forms for each canonical value. -/
def read (reading : Reading) : Except Fault Synonyms := do
  let entries ← reading.readEntries fun part => part.val.readList fun item => item.val.readString
  return ⟨ExtTreeMap.ofList (entries.map fun (canonical, forms) =>
    (canonical, ExtTreeSet.ofList forms))⟩

def toJson (synonyms : Synonyms) : Json :=
  .object (synonyms.toList.map fun (canonical, forms) => (canonical, .ofList .string forms))

end Synonyms

end Phrasebook
