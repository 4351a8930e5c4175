import Std.Data.ExtTreeSet
import Phrasebook.Example

/-! Synonyms: for each canonical value the surface forms that were seen to stand for it, both in
order. A canonical value may be listed without any form. -/

namespace Phrasebook

open Std

/-- The surface forms of canonical values. -/
structure Synonyms where
  forms : ExtTreeMap String (ExtTreeSet String)

namespace Synonyms

def empty : Synonyms := ⟨∅⟩

instance : EmptyCollection Synonyms := ⟨empty⟩

/-- The forms of a canonical value, if it is listed. -/
def get? (synonyms : Synonyms) (canonical : String) : Option (ExtTreeSet String) :=
  synonyms.forms[canonical]?

def has (synonyms : Synonyms) (canonical surface : String) : Bool :=
  match synonyms.get? canonical with
  | some forms => forms.contains surface
  | none => false

def record (synonyms : Synonyms) (canonical surface : String) : Synonyms where
  forms := synonyms.forms.insert canonical (((synonyms.get? canonical).getD ∅).insert surface)

/-- Lists a form of a canonical value, and tells whether it was not listed before. -/
def recordNew (synonyms : Synonyms) (canonical surface : String) : Bool × Synonyms :=
  let (known, forms) := ((synonyms.get? canonical).getD ∅).containsThenInsert surface
  (!known, ⟨synonyms.forms.insert canonical forms⟩)

/-- Lists more forms of a canonical value, which is listed even if there are none. -/
def extend (synonyms : Synonyms) (canonical : String) (more : ExtTreeSet String) : Synonyms where
  forms := synonyms.forms.insert canonical (((synonyms.get? canonical).getD ∅) ∪ more)

/-- All that either table lists. -/
def merge (synonyms other : Synonyms) : Synonyms :=
  other.forms.toList.foldl (fun table (canonical, forms) => table.extend canonical forms) synonyms

def size (synonyms : Synonyms) : Nat := synonyms.forms.size

/-- The canonical values in order, each with its forms in order. -/
def toList (synonyms : Synonyms) : List (String × List String) :=
  synonyms.forms.toList.map fun (canonical, forms) => (canonical, forms.toList)

/-- Lists the surface of every mention that lies inside the text of an example. -/
def recordMentions (synonyms : Synonyms) (e : Example) : Synonyms :=
  e.mentions.foldl (fun table mention =>
    match e.surface? mention with
    | some surface => table.record mention.canonicalValue surface
    | none => table) synonyms

end Synonyms

end Phrasebook
