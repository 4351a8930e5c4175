import Phrasebook.Json.Text
import Phrasebook.Proofs.Lexemes

/-! Reading back what was written. A value has the same lexemes in both layouts, and these are read to
the same value again, as long as its numbers are natural and its brackets do not nest too deeply. -/

namespace Phrasebook.Json

open Lexeme

/-! ### The lexemes of a value -/

mutual

/-- All numbers of the value are natural numbers below 2^64. -/
def IsNatural : Json → Prop
  | number value => ∃ count : UInt64, value = count.toNat
  | array items => AreNatural items
  | object members => MembersNatural members
  | _ => True

def AreNatural : List Json → Prop
  | [] => True
  | item :: rest => item.IsNatural ∧ AreNatural rest

def MembersNatural : List (String × Json) → Prop
  | [] => True
  | (_, value) :: rest => value.IsNatural ∧ MembersNatural rest

end

theorem areNatural_iff {items : List Json} : AreNatural items ↔ ∀ item ∈ items, item.IsNatural := by
  induction items with
  | nil => simp [AreNatural]
  | cons item items ih => simp [AreNatural, ih]

theorem membersNatural_iff {members : List (String × Json)} :
    MembersNatural members ↔ ∀ member ∈ members, member.2.IsNatural := by
  induction members with
  | nil => simp [MembersNatural]
  | cons member members ih => simp [MembersNatural, ih]

theorem membersNatural_append {members more : List (String × Json)} :
    MembersNatural (members ++ more) ↔ MembersNatural members ∧ MembersNatural more := by
  simp only [membersNatural_iff, List.forall_mem_append]

theorem membersNatural_memberIfSome {α : Type} {name : String} {toJson : α → Json}
    {value : Option α} (h : ∀ a, (toJson a).IsNatural) :
    MembersNatural (memberIfSome name toJson value) := by
  cases value with
  | none => trivial
  | some a => exact ⟨h a, trivial⟩

theorem membersNatural_text (name : String) (value : Option String) :
    MembersNatural (memberIfSome name string value) :=
  membersNatural_memberIfSome fun _ => trivial

theorem membersNatural_count (name : String) (value : Option UInt64) :
    MembersNatural (memberIfSome name (fun count => number count.toNat) value) :=
  membersNatural_memberIfSome fun count => ⟨count, rfl⟩

mutual

/-- The lexemes that a value is written with, if its numbers are natural. -/
def lexemes : Json → List Lexeme
  | null => [.plain .null]
  | bool value => [.plain (.bool value)]
  | number value => [.plain (.natural (.ofNat value.toNat))]
  | string text => [.quoted (some text)]
  | array items => .openBracket :: (itemLexemes items ++ [.closeBracket])
  | object members => .openBrace :: (memberLexemes members ++ [.closeBrace])

def itemLexemes : List Json → List Lexeme
  | [] => []
  | item :: rest => item.lexemes ++ moreItems rest

/-- The lexemes of the items behind the first one. -/
def moreItems : List Json → List Lexeme
  | [] => []
  | item :: rest => .comma :: (item.lexemes ++ moreItems rest)

def memberLexemes : List (String × Json) → List Lexeme
  | [] => []
  | (name, value) :: rest => .quoted (some name) :: .colon :: (value.lexemes ++ moreMembers rest)

/-- The lexemes of the members behind the first one. -/
def moreMembers : List (String × Json) → List Lexeme
  | [] => []
  | (name, value) :: rest =>
    .comma :: .quoted (some name) :: .colon :: (value.lexemes ++ moreMembers rest)

end

/-! ### The two layouts -/

/-- Behind the name of a member and the colon comes its value. -/
theorem opens_name {out colon : String} {found : List Lexeme} (h : Opens out found) (name : String)
    (hcolon : isMark .colon colon) :
    Opens (out ++ quote name ++ colon) (found ++ [.quoted (some name), .colon]) := by
  simpa using (h.add (split_quote name)).closes.mark hcolon

mutual

/-- By recursion on the value; what is written before stays as it is split. -/
theorem closes_writeCompact {out : String} {found : List Lexeme} (h : Opens out found) :
    ∀ value : Json, value.IsNatural → Closes (value.writeCompact out) (found ++ value.lexemes)
  | null, _ => (h.add split_null).closes
  | bool value, _ => (h.add (split_bool value)).closes
  | string text, _ => (h.add (split_quote text)).closes
  | number _, ⟨count, rfl⟩ => by simpa [writeCompact, lexemes] using h.number count
  | array items, hnatural => by
    have hopen : Opens (out ++ "[") (found ++ [.openBracket]) := h.closes.mark (by decide)
    have hclose : Opens _ (_ ++ [.closeBracket]) :=
      (closes_writeItems hopen items hnatural).mark (by decide : isMark .closeBracket "]")
    simpa [writeCompact, lexemes] using hclose.closes
  | object members, hnatural => by
    have hopen : Opens (out ++ "\x7b") (found ++ [.openBrace]) := h.closes.mark (by decide)
    have hclose : Opens _ (_ ++ [.closeBrace]) :=
      (closes_writeMembers hopen members hnatural).mark (by decide : isMark .closeBrace "\x7d")
    simpa [writeCompact, lexemes] using hclose.closes

theorem closes_writeItems {out : String} {found : List Lexeme} (h : Opens out found) :
    ∀ items, AreNatural items → Closes (writeItems out items) (found ++ itemLexemes items)
  | [], _ => by simpa [writeItems, itemLexemes] using h.closes
  | [item], hnatural => by
    simpa [writeItems, itemLexemes, moreItems] using closes_writeCompact h item hnatural.1
  | item :: next :: rest, hnatural => by
    have hcomma : Opens (item.writeCompact out ++ ",") (found ++ item.lexemes ++ [.comma]) :=
      (closes_writeCompact h item hnatural.1).mark (by decide)
    simpa [writeItems, itemLexemes, moreItems] using
      closes_writeItems hcomma (next :: rest) hnatural.2

theorem closes_writeMembers {out : String} {found : List Lexeme} (h : Opens out found) :
    ∀ members, MembersNatural members →
      Closes (writeMembers out members) (found ++ memberLexemes members)
  | [], _ => by simpa [writeMembers, memberLexemes] using h.closes
  | [(name, value)], hnatural => by
    have hname := opens_name h name (by decide : isMark .colon ":")
    simpa [writeMembers, memberLexemes, moreMembers] using
      closes_writeCompact hname value hnatural.1
  | (name, value) :: next :: rest, hnatural => by
    have hname := opens_name h name (by decide : isMark .colon ":")
    have hcomma : Opens (value.writeCompact _ ++ ",") (_ ++ value.lexemes ++ [.comma]) :=
      (closes_writeCompact hname value hnatural.1).mark (by decide)
    simpa [writeMembers, memberLexemes, moreMembers] using
      closes_writeMembers hcomma (next :: rest) hnatural.2

end

mutual

/-- The new lines and blanks between the lexemes are the only difference. -/
theorem closes_writePretty {out : String} {found : List Lexeme} (level : Nat) (h : Opens out found) :
    ∀ value : Json, value.IsNatural → Closes (value.writePretty level out) (found ++ value.lexemes)
  | null, _ => (h.add split_null).closes
  | bool value, _ => (h.add (split_bool value)).closes
  | string text, _ => (h.add (split_quote text)).closes
  | number _, ⟨count, rfl⟩ => by simpa [writePretty, lexemes] using h.number count
  | array [], _ => by
    have hopen : Opens (out ++ "[") (found ++ [.openBracket]) := h.closes.mark (by decide)
    have hclose : Opens (out ++ "[" ++ "]") (_ ++ [.closeBracket]) := hopen.closes.mark (by decide)
    simpa [writePretty, lexemes, itemLexemes, String.append_assoc] using hclose.closes
  | array (item :: rest), hnatural => by
    have hopen : Opens (out ++ "[") (found ++ [.openBracket]) := h.closes.mark (by decide)
    have hitem := closes_writePretty (level + 1) (hopen.closes.newline (level + 1)) item hnatural.1
    have hrest := closes_writeMoreItems (level + 1) hitem rest hnatural.2
    have hclose : Opens _ (_ ++ [.closeBracket]) :=
      (hrest.newline level).closes.mark (by decide : isMark .closeBracket "]")
    simpa [writePretty, lexemes, itemLexemes, String.append_assoc] using hclose.closes
  | object [], _ => by
    have hopen : Opens (out ++ "\x7b") (found ++ [.openBrace]) := h.closes.mark (by decide)
    have hclose : Opens (out ++ "\x7b" ++ "\x7d") (_ ++ [.closeBrace]) :=
      hopen.closes.mark (by decide)
    simpa [writePretty, lexemes, memberLexemes, String.append_assoc] using hclose.closes
  | object ((name, value) :: rest), hnatural => by
    have hopen : Opens (out ++ "\x7b") (found ++ [.openBrace]) := h.closes.mark (by decide)
    have hname := opens_name (hopen.closes.newline (level + 1)) name (by decide : isMark .colon ": ")
    have hvalue := closes_writePretty (level + 1) hname value hnatural.1
    have hrest := closes_writeMoreMembers (level + 1) hvalue rest hnatural.2
    have hclose : Opens _ (_ ++ [.closeBrace]) :=
      (hrest.newline level).closes.mark (by decide : isMark .closeBrace "\x7d")
    simpa [writePretty, lexemes, memberLexemes, String.append_assoc] using hclose.closes

theorem closes_writeMoreItems {out : String} {found : List Lexeme} (level : Nat)
    (h : Closes out found) :
    ∀ items, AreNatural items → Closes (writeMoreItems level out items) (found ++ moreItems items)
  | [], _ => by simpa [writeMoreItems, moreItems] using h
  | item :: rest, hnatural => by
    have hcomma : Opens (out ++ ",") (found ++ [.comma]) := h.mark (by decide)
    have hitem := closes_writePretty level (hcomma.closes.newline level) item hnatural.1
    simpa [writeMoreItems, moreItems] using closes_writeMoreItems level hitem rest hnatural.2

theorem closes_writeMoreMembers {out : String} {found : List Lexeme} (level : Nat)
    (h : Closes out found) :
    ∀ members, MembersNatural members →
      Closes (writeMoreMembers level out members) (found ++ moreMembers members)
  | [], _ => by simpa [writeMoreMembers, moreMembers] using h
  | (name, value) :: rest, hnatural => by
    have hcomma : Opens (out ++ ",") (found ++ [.comma]) := h.mark (by decide)
    have hname := opens_name (hcomma.closes.newline level) name (by decide : isMark .colon ": ")
    have hvalue := closes_writePretty level hname value hnatural.1
    simpa [writeMoreMembers, moreMembers] using closes_writeMoreMembers level hvalue rest hnatural.2

end

theorem split_compact {value : Json} (h : value.IsNatural) :
    split value.compact.toList = value.lexemes :=
  (closes_writeCompact opens_empty value h).split_eq

theorem split_pretty {value : Json} (h : value.IsNatural) :
    split value.pretty.toList = value.lexemes :=
  (closes_writePretty 0 opens_empty value h).split_eq

end Phrasebook.Json
