import Phrasebook.Proofs.Layouts

/-! What is read of a written value: the same value without damage. The lexemes of the value bring the
reading from where a value is awaited to behind that value, inside whatever is open. -/

namespace Phrasebook.Json

open Lexeme Unclosed

mutual

/-- The number of brackets and braces that are open at the deepest place of the value. -/
def depth : Json → Nat
  | array items => depthOfItems items + 1
  | object members => depthOfMembers members + 1
  | _ => 0

def depthOfItems : List Json → Nat
  | [] => 0
  | item :: rest => max item.depth (depthOfItems rest)

def depthOfMembers : List (String × Json) → Nat
  | [] => 0
  | (_, value) :: rest => max value.depth (depthOfMembers rest)

end

mutual

/-- The reading of the whole value, if its numbers are natural. -/
def reading : Json → Reading
  | null => .null
  | bool value => .bool value
  | number value => .natural (.ofNat value.toNat)
  | string text => .string text
  | array items => .array (readings items) none
  | object members => .object (membersRead members) none

def readings : List Json → List Reading
  | [] => []
  | item :: rest => item.reading :: readings rest

def membersRead : List (String × Json) → List Member
  | [] => []
  | (name, value) :: rest => ⟨some name, value.reading⟩ :: membersRead rest

end

mutual

/-- In a written value there is no damage, and nothing that cannot be read. -/
theorem hold_reading : ∀ value : Json, value.reading.hold = .ok ()
  | null => rfl
  | bool _ => rfl
  | number _ => rfl
  | string _ => rfl
  | array items => by
    rw [reading, Reading.hold, holdItems_readings items]
    rfl
  | object members => by
    rw [reading, Reading.hold, holdMembers_membersRead members]
    rfl

theorem holdItems_readings : ∀ items : List Json, Reading.holdItems (readings items) = .ok ()
  | [] => rfl
  | item :: rest => by
    rw [readings, Reading.holdItems, hold_reading item]
    exact holdItems_readings rest

theorem holdMembers_membersRead : ∀ members : List (String × Json),
    Reading.holdMembers (membersRead members) = .ok ()
  | [] => rfl
  | (name, value) :: rest => by
    rw [membersRead, Reading.holdMembers, hold_reading value]
    exact holdMembers_membersRead rest

end

namespace Progress

theorem afterClosing_array (items : List Reading) {outer : List Unclosed}
    (h : outer.length + 1 ≤ maxDepth) :
    afterClosing (.array items) outer = afterValue (.array items.reverse none) outer := by
  rw [afterClosing, close, if_pos h]

theorem afterClosing_object (members : List Member) (name : Option String) {outer : List Unclosed}
    (h : outer.length + 1 ≤ maxDepth) :
    afterClosing (.object members name) outer = afterValue (.object members.reverse none) outer := by
  rw [afterClosing, close, if_pos h]

mutual

/-- Where a value is awaited, its lexemes are read to the whole value. -/
theorem run_lexemes (stack : List Unclosed) (mayClose : Bool) (tail : List Lexeme) :
    ∀ value : Json, stack.length + value.depth ≤ maxDepth →
      run (inside stack (.value mayClose)) (value.lexemes ++ tail) =
        run (afterValue value.reading stack) tail
  | null, _ => rfl
  | bool _, _ => rfl
  | number _, _ => rfl
  | string _, _ => rfl
  | array [], hdepth => by
    have hlevel : stack.length + 1 ≤ maxDepth := by simpa [depth, depthOfItems] using hdepth
    exact congrArg (run · tail) (afterClosing_array [] hlevel)
  | array (item :: rest), hdepth => by
    simp only [depth, depthOfItems] at hdepth
    have hitem := run_lexemes (.array [] :: stack) true (moreItems rest ++ .closeBracket :: tail) item
      (by simp; omega)
    have hrest := run_moreItems stack [item.reading] tail rest (by omega)
    simpa [lexemes, itemLexemes, run, take, takeValue, reading, readings] using hitem.trans hrest
  | object [], hdepth => by
    have hlevel : stack.length + 1 ≤ maxDepth := by simpa [depth, depthOfMembers] using hdepth
    exact congrArg (run · tail) (afterClosing_object [] none hlevel)
  | object ((name, value) :: rest), hdepth => by
    simp only [depth, depthOfMembers] at hdepth
    have hvalue := run_lexemes (.object [] name :: stack) false
      (moreMembers rest ++ .closeBrace :: tail) value (by simp; omega)
    have hrest := run_moreMembers stack [⟨name, value.reading⟩] name tail rest (by omega)
    simpa [lexemes, memberLexemes, run, take, takeValue, takeName, takeColon, reading, membersRead]
      using hvalue.trans hrest

/-- The items behind the first one are added to those before. -/
theorem run_moreItems (stack : List Unclosed) (past : List Reading) (tail : List Lexeme) :
    ∀ items, stack.length + 1 + depthOfItems items ≤ maxDepth →
      run (inside (.array past :: stack) .separator) (moreItems items ++ .closeBracket :: tail) =
        run (afterValue (.array (past.reverse ++ readings items) none) stack) tail
  | [], hdepth => by
    have hlevel : stack.length + 1 ≤ maxDepth := by simpa [depthOfItems] using hdepth
    rw [readings, List.append_nil]
    exact congrArg (run · tail) (afterClosing_array past hlevel)
  | item :: rest, hdepth => by
    simp only [depthOfItems] at hdepth
    have hitem := run_lexemes (.array past :: stack) false (moreItems rest ++ .closeBracket :: tail)
      item (by simp; omega)
    have hrest := run_moreItems stack (item.reading :: past) tail rest (by omega)
    simpa [moreItems, run, take, takeSeparator, readings] using hitem.trans hrest

/-- The members behind the first one are added to those before. -/
theorem run_moreMembers (stack : List Unclosed) (past : List Member) (last : Option String)
    (tail : List Lexeme) :
    ∀ members, stack.length + 1 + depthOfMembers members ≤ maxDepth →
      run (inside (.object past last :: stack) .separator)
          (moreMembers members ++ .closeBrace :: tail) =
        run (afterValue (.object (past.reverse ++ membersRead members) none) stack) tail
  | [], hdepth => by
    have hlevel : stack.length + 1 ≤ maxDepth := by simpa [depthOfMembers] using hdepth
    rw [membersRead, List.append_nil]
    exact congrArg (run · tail) (afterClosing_object past last hlevel)
  | (name, value) :: rest, hdepth => by
    simp only [depthOfMembers] at hdepth
    have hvalue := run_lexemes (.object past name :: stack) false
      (moreMembers rest ++ .closeBrace :: tail) value (by simp; omega)
    have hrest := run_moreMembers stack (⟨name, value.reading⟩ :: past) name tail rest (by omega)
    simpa [moreMembers, run, take, takeSeparator, takeName, takeColon, membersRead] using
      hvalue.trans hrest

end

end Progress

variable {value : Json} {text : String}

theorem readingOfText_of_split (hsplit : split text.toList = value.lexemes)
    (hdepth : value.depth ≤ maxDepth) : readingOfText text = (value.reading, []) := by
  have hrun := Progress.run_lexemes [] false [] value (by simpa using hdepth)
  rw [readingOfText, hsplit, ← List.append_nil value.lexemes]
  exact hrun

/-- A text that has the lexemes of a value is read as that value. -/
theorem readText_of_split {α : Type} (read : Reading → Except Fault α)
    (hsplit : split text.toList = value.lexemes) (hdepth : value.depth ≤ maxDepth) :
    readText read text = read value.reading := by
  simp only [readText, readingOfText_of_split hsplit hdepth, List.isEmpty_nil, if_true, bind_pure]

theorem readText_compact {α : Type} (read : Reading → Except Fault α) (hnatural : value.IsNatural)
    (hdepth : value.depth ≤ maxDepth) : readText read value.compact = read value.reading :=
  readText_of_split read (split_compact hnatural) hdepth

theorem readText_pretty {α : Type} (read : Reading → Except Fault α) (hnatural : value.IsNatural)
    (hdepth : value.depth ≤ maxDepth) : readText read value.pretty = read value.reading :=
  readText_of_split read (split_pretty hnatural) hdepth

end Phrasebook.Json
