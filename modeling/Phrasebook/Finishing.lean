import Phrasebook.Marker
import Phrasebook.Template
import Phrasebook.Synonyms

/-! The last step of a unit: its argument is bound in the generated text, and the text of a slot
becomes a mention of the slot's value. -/

namespace Phrasebook

/-- The value that a text generated by a rule stands for: the declared one, else the only literal of
the rule, else the text. -/
def Rule.valueOf (rule : Rule) (generated : String) : String :=
  (rule.slotValue <|> rule.singleLiteral?).getD generated

namespace Definition

def isSlot (definition : Definition) : Bool := definition.key.kind = .slot

/-- Makes a mention of the text of a slot; `bind` puts the argument into the value. -/
def markSlot (definition : Definition) (rule : Rule) (bind : String → String) (e : Example) :
    Example :=
  if definition.isSlot then e.asMention definition.key.name (bind (rule.valueOf e.text)) else e

/-- Binds the argument of a unit in a text that one of its rules generated, and makes a mention of
the text of a slot. A unit without an argument takes no notice of a value for it. -/
def finish (definition : Definition) (rule : Rule) (argument : Option String) (e : Example) :
    Except TemplateError Example :=
  match definition.argumentName, argument with
  | none, _ => .ok (definition.markSlot rule id e)
  | some _, none => .error (.missingArgument definition.key)
  | some name, some value =>
    let marker : Marker := ⟨name⟩
    .ok (definition.markSlot rule (marker.replaceIn value) (marker.substitute value e))

/-- Lists the text of a slot as a form of its value. -/
def recordSlot (definition : Definition) (synonyms : Synonyms) (finished : Example) : Synonyms :=
  if definition.isSlot then synonyms.recordMentions finished else synonyms

end Definition

end Phrasebook
