import Phrasebook.Proofs.Boundaries

/-! What is left of markers once a value stands in their places. A marker of the new text would
start with a sign of the old one, as the value has none, and could not reach over a value whose
first character is not in the name. So it was written in the old text already, where it was passed
over only because a character of a word stood behind it, and that character is still there. -/

namespace Phrasebook

namespace Marker

variable {marker : Marker} {last first : Char} {value : List Char} {pieces : List Piece}

/-- Text that does not have the first character of the value is written in plain characters, before
any value. -/
theorem exists_plain_of_prefix_fill {name : List Char} (hfirst : first ∉ name)
    (hname : name <+: fill (first :: value) pieces) :
    ∃ rest, pieces = name.map .plain ++ rest := by
  induction name generalizing pieces with
  | nil => exact ⟨pieces, rfl⟩
  | cons c name ih =>
    have hother : first ≠ c := List.ne_of_not_mem_cons hfirst
    cases pieces with
    | nil => exact nomatch List.prefix_nil.mp hname
    | cons piece behind =>
      cases piece with
      | plain d =>
        obtain ⟨rfl, hbehind⟩ : c = d ∧ name <+: fill (first :: value) behind :=
          List.cons_prefix_cons.mp hname
        obtain ⟨rest, rfl⟩ := ih (List.not_mem_of_not_mem_cons hfirst) hbehind
        exact ⟨rest, rfl⟩
      | marker =>
        have hhead : c = first := (List.cons_prefix_cons.mp hname).1
        exact absurd hhead.symm hother

theorem fill_map_plain (text name : List Char) (rest : List Piece) :
    fill text (name.map .plain ++ rest) = name ++ fill text rest := by
  rw [fill_append]
  congr 1
  induction name with
  | nil => rfl
  | cons c name ih => exact congrArg (c :: ·) ih

/-- An edge behind a name that ends in a character of words is there whatever takes the place of the
markers: a marker starts with a sign, which is no such character. -/
theorem endsBefore_fill_literal (hlast : marker.name.toList.getLast? = some last)
    (hword : isWordChar last = true) {rest : List Piece}
    (h : marker.endsBefore (fill value rest) = true) :
    marker.endsBefore (fill marker.literal rest) = true := by
  rw [endsBefore_of_isWordChar hlast hword] at h ⊢
  cases rest with
  | nil => exact h
  | cons piece behind =>
    cases piece with
    | plain c => exact h
    | marker =>
      have hsign : isWordChar '$' = false := by decide +kernel
      have hhead : (fill marker.literal (.marker :: behind)).head? = some '$' := rfl
      rw [hhead, Option.any_some, hsign, Bool.not_false, Bool.or_true]

/-- A marker that starts before the values was written with the markers in their places as well, as
it does not reach over any of them. -/
theorem startsAt_cons_fill_literal (hlast : marker.name.toList.getLast? = some last)
    (hword : isWordChar last = true) (hfirst : first ∉ marker.name.toList) {c : Char}
    (h : marker.startsAt (c :: fill (first :: value) pieces) = true) :
    marker.startsAt (c :: fill marker.literal pieces) = true := by
  obtain ⟨hliteral, hedge⟩ := startsAt_iff.mp h
  obtain ⟨rfl, hname⟩ := List.cons_prefix_cons.mp hliteral
  obtain ⟨rest, rfl⟩ := exists_plain_of_prefix_fill hfirst hname
  have hdrop (behind : List Char) :
      ('$' :: (marker.name.toList ++ behind)).drop marker.length = behind :=
    @List.drop_left _ marker.literal behind
  rw [fill_map_plain, hdrop] at hedge
  refine startsAt_iff.mpr ⟨?_, ?_⟩
  · rw [fill_map_plain]
    exact List.prefix_append marker.literal _
  · rw [fill_map_plain, hdrop]
    exact endsBefore_fill_literal hlast hword hedge

theorem startsAt_append_of_not_mem {text : List Char} (hsign : '$' ∉ value) (hvalue : value ≠ []) :
    marker.startsAt (value ++ text) = false := by
  obtain ⟨c, rest, rfl⟩ := List.exists_cons_of_ne_nil hvalue
  refine Bool.eq_false_iff.mpr fun hstarts => ?_
  have hhead : '$' = c := (List.cons_prefix_cons.mp (startsAt_iff.mp hstarts).1).1
  exact List.ne_of_not_mem_cons hsign hhead

/-- No marker starts anywhere in a text whose markers have made way for the value. -/
theorem startsAt_drop_fill_split (hlast : marker.name.toList.getLast? = some last)
    (hword : isWordChar last = true) (hfirst : first ∉ marker.name.toList)
    (hsign : '$' ∉ first :: value) (text : List Char) (start : Nat) :
    marker.startsAt ((fill (first :: value) (marker.split text)).drop start) = false := by
  have hempty : marker.startsAt [] = false := by
    refine Bool.eq_false_iff.mpr fun hstarts => ?_
    exact nomatch List.prefix_nil.mp (startsAt_iff.mp hstarts).1
  fun_induction marker.split text generalizing start with
  | case1 =>
    rw [fill_nil, List.drop_nil]
    exact hempty
  | case2 c cs hstarts ih =>
    rw [fill_marker]
    by_cases hinside : start < (first :: value).length
    · rw [List.drop_append_of_le_length (Nat.le_of_lt hinside)]
      refine startsAt_append_of_not_mem (fun hmem => hsign (List.mem_of_mem_drop hmem)) ?_
      exact fun hnil => absurd (List.drop_eq_nil_iff.mp hnil) (Nat.not_le_of_lt hinside)
    · obtain ⟨behind, rfl⟩ := Nat.exists_eq_add_of_le (Nat.le_of_not_lt hinside)
      rw [List.drop_length_add_append]
      exact ih behind
  | case3 c cs hpassed ih =>
    rw [fill_plain]
    cases start with
    | succ start => exact ih start
    | zero =>
      refine Bool.eq_false_iff.mpr fun hstarts => hpassed ?_
      rw [← marker.fill_split cs]
      exact startsAt_cons_fill_literal hlast hword hfirst hstarts

theorem startsOf_split_eq_nil {text : List Char}
    (h : ∀ start, marker.startsAt (text.drop start) = false) :
    marker.startsOf (marker.split text) = [] := by
  refine List.eq_nil_iff_forall_not_mem.mpr fun start hstart => ?_
  have hfound := (((marker.leftmost_split text).mem_iff start).mp hstart).1
  exact Bool.eq_false_iff.mp (h start) hfound

/-- With or without markers, the new text has the value in the place of each. -/
theorem text_substitute (marker : Marker) (value : String) (e : Example) :
    (marker.substitute value e).text =
      String.ofList (fill value.toList (marker.split e.text.toList)) := by
  unfold substitute
  dsimp only
  split
  · next hnone =>
    rw [fill_of_stops_eq_nil (List.isEmpty_iff.mp hnone), fill_split, String.ofList_toList]
  · rfl

theorem substitute_of_starts_eq_nil {e : Example} (h : marker.starts e.text = [])
    (value : String) : marker.substitute value e = e := by
  have hstops : marker.stops (marker.split e.text.toList) = [] := List.map_eq_nil_iff.mp h
  unfold substitute
  dsimp only
  rw [hstops, List.isEmpty_nil, if_pos rfl]

/-- Where a name ends in a character of words, and the value has no sign in it and begins with a
character that is not in the name, no marker is left once the value stands in the place of each: to
put any value in the place of markers again changes nothing. -/
theorem starts_substitute_eq_nil {value : String}
    (hlast : marker.name.toList.getLast? = some last) (hword : isWordChar last = true)
    (hhead : value.toList.head? = some first) (hfirst : first ∉ marker.name.toList)
    (hsign : '$' ∉ value.toList) (e : Example) :
    marker.starts (marker.substitute value e).text = [] ∧
      ∀ again, marker.substitute again (marker.substitute value e) = marker.substitute value e := by
  obtain ⟨behind, hvalue⟩ := List.head?_eq_some_iff.mp hhead
  have hnone : marker.starts (marker.substitute value e).text = [] := by
    rw [text_substitute, starts, String.toList_ofList, hvalue]
    apply startsOf_split_eq_nil
    exact startsAt_drop_fill_split hlast hword hfirst (hvalue ▸ hsign) e.text.toList
  exact ⟨hnone, substitute_of_starts_eq_nil hnone⟩

end Marker

namespace Requests

theorem starts_request_eq_nil : who.name.toList.getLast? = some 'o' ∧ isWordChar 'o' = true ∧
    "Ada".toList.head? = some 'A' ∧ 'A' ∉ who.name.toList ∧ '$' ∉ "Ada".toList ∧
    who.starts request.text = [5, 14] ∧ who.starts (who.substitute "Ada" request).text = [] := by
  have hlast : who.name.toList.getLast? = some 'o' := by decide +kernel
  have hword : isWordChar 'o' = true := by decide +kernel
  have hhead : "Ada".toList.head? = some 'A' := by decide +kernel
  have hfirst : 'A' ∉ who.name.toList := by decide +kernel
  have hsign : '$' ∉ "Ada".toList := by decide +kernel
  refine ⟨hlast, hword, hhead, hfirst, hsign, by decide +kernel, ?_⟩
  exact (Marker.starts_substitute_eq_nil hlast hword hhead hfirst hsign request).1

end Requests

end Phrasebook
