import Phrasebook.Proofs.Markers

/-! What becomes of the text that a mention covers when values take the place of markers. The markers
found are the leftmost ones that do not overlap. Read position by position, a text shows the value where
a marker starts, nothing at the other positions of a marker, and its own characters elsewhere. A mention
without an edge inside a marker is moved to just what its old positions show. -/

namespace Phrasebook

namespace Marker

variable {marker : Marker} {value : List Char} {position : Nat} {pieces behind rest : List Piece}

/-! ### Where the markers start -/

/-- The positions at which the markers among the pieces start. -/
def startsOf (marker : Marker) (pieces : List Piece) : List Nat :=
  (marker.stops pieces).map (· - marker.length)

theorem length_le_of_mem_stops {stop : Nat} (h : stop ∈ marker.stops pieces) :
    marker.length ≤ stop := by
  induction pieces generalizing stop with
  | nil => exact (List.not_mem_nil h).elim
  | cons piece rest ih =>
    cases piece with
    | plain c =>
      obtain ⟨s, hs, rfl⟩ := mem_stops_plain.mp h
      exact Nat.le_succ_of_le (ih hs)
    | marker =>
      rcases mem_stops_marker.mp h with rfl | ⟨s, -, rfl⟩
      · exact Nat.le_refl _
      · exact Nat.le_add_left _ _

/-- A marker stops its length behind its start. -/
theorem mem_stops_iff {stop : Nat} : stop ∈ marker.stops pieces ↔
    ∃ start ∈ marker.startsOf pieces, stop = start + marker.length := by
  unfold startsOf
  constructor
  · intro hstop
    have hle := length_le_of_mem_stops hstop
    exact ⟨_, List.mem_map.mpr ⟨stop, hstop, rfl⟩, by omega⟩
  · rintro ⟨start, hstart, rfl⟩
    obtain ⟨stop, hstop, rfl⟩ := List.mem_map.mp hstart
    have hle := length_le_of_mem_stops hstop
    rwa [Nat.sub_add_cancel hle]

theorem startsOf_plain (marker : Marker) (c : Char) (rest : List Piece) :
    marker.startsOf (.plain c :: rest) = (marker.startsOf rest).map (1 + ·) := by
  show (stops.go marker (0 + 1) rest).map _ = _
  rw [go_eq_map, startsOf, List.map_map, List.map_map]
  refine List.map_congr_left fun stop hstop => ?_
  have hle := length_le_of_mem_stops hstop
  simp
  omega

theorem startsOf_marker (marker : Marker) (rest : List Piece) :
    marker.startsOf (.marker :: rest) = 0 :: (marker.startsOf rest).map (marker.length + ·) := by
  show ((0 + marker.length) :: stops.go marker (0 + marker.length) rest).map _ = _
  rw [go_eq_map, startsOf, List.map_cons, List.map_map, List.map_map]
  congr 1
  · omega
  refine List.map_congr_left fun stop hstop => ?_
  have hle := length_le_of_mem_stops hstop
  simp
  omega

/-- The starts of the markers that are found when a text is searched from the left. -/
structure Leftmost (marker : Marker) (text : List Char) (starts : List Nat) : Prop where
  /-- No two of the markers overlap. -/
  apart : starts.Pairwise fun first second => first + marker.length ≤ second
  /-- The marker is found wherever it stands, unless it overlaps one that was found before. -/
  mem_iff : ∀ start, start ∈ starts ↔ marker.startsAt (text.drop start) = true ∧
    ∀ other ∈ starts, other < start → other + marker.length ≤ start

theorem Leftmost.mem_map_add_iff {text : List Char} {starts : List Nat}
    (h : marker.Leftmost text starts) (offset start : Nat) :
    offset + start ∈ starts.map (offset + ·) ↔ marker.startsAt (text.drop start) = true ∧
      ∀ other ∈ starts.map (offset + ·), other < offset + start →
        other + marker.length ≤ offset + start := by
  have hmem : offset + start ∈ starts.map (offset + ·) ↔ start ∈ starts := by simp
  rw [hmem, h.mem_iff, List.forall_mem_map]
  refine and_congr_right fun _ => forall₂_congr fun other _ => ?_
  omega

theorem leftmost_split (marker : Marker) (text : List Char) :
    marker.Leftmost text (marker.startsOf (marker.split text)) := by
  have hpos := marker.length_pos
  fun_induction marker.split text with
  | case1 =>
    refine ⟨.nil, fun start => ?_⟩
    rw [List.drop_nil]
    simp [startsOf, stops, stops.go, startsAt, literal]
  | case2 c cs hstarts ih =>
    rw [startsOf_marker]
    refine ⟨List.pairwise_cons.mpr ⟨by simp, ?_⟩, fun start => ?_⟩
    · refine List.pairwise_map.mpr (ih.apart.imp fun {a b} hab => ?_)
      omega
    rw [List.mem_cons, List.forall_mem_cons]
    by_cases hinside : start < marker.length
    · -- Inside the marker that was found, only its start is a start.
      constructor
      · rintro (rfl | hmem)
        · exact ⟨hstarts, fun h => absurd h (Nat.lt_irrefl 0),
            fun _ _ h => absurd h (Nat.not_lt_zero _)⟩
        · obtain ⟨s, -, rfl⟩ := List.mem_map.mp hmem
          omega
      · rintro ⟨-, hzero, -⟩
        omega
    · obtain ⟨start, rfl⟩ := Nat.exists_eq_add_of_le (Nat.le_of_not_lt hinside)
      have hne : marker.length + start ≠ 0 := by omega
      rw [or_iff_right hne, ih.mem_map_add_iff, List.drop_drop]
      refine and_congr_right fun _ => ⟨fun hothers => ⟨fun _ => by omega, hothers⟩, And.right⟩
  | case3 c cs hstarts ih =>
    rw [startsOf_plain]
    refine ⟨List.pairwise_map.mpr (ih.apart.imp fun {a b} hab => ?_), fun start => ?_⟩
    · omega
    cases start with
    | zero => simp [hstarts]
    | succ start =>
      rw [Nat.add_comm, ih.mem_map_add_iff, Nat.add_comm 1, List.drop_succ_cons]

/-! ### What the positions show -/

/-- One of the markers that start there begins before the position and ends behind it. -/
def Straddles (marker : Marker) (starts : List Nat) (position : Nat) : Prop :=
  ∃ start ∈ starts, start < position ∧ position < start + marker.length

instance (starts : List Nat) (position : Nat) : Decidable (marker.Straddles starts position) :=
  inferInstanceAs (Decidable (∃ start ∈ starts, _ ∧ _))

/-- What a position of a text shows once the value stands in the place of each marker. -/
def shownAt (marker : Marker) (value : List Char) (starts : List Nat) (text : List Char)
    (position : Nat) : List Char :=
  if position ∈ starts then value
  else if marker.Straddles starts position then []
  else text[position]?.toList

/-- What the positions of the pieces show. -/
abbrev shown (marker : Marker) (value : List Char) (pieces : List Piece) : Nat → List Char :=
  marker.shownAt value (marker.startsOf pieces) (fill marker.literal pieces)

theorem straddles_map_add (starts : List Nat) (offset position : Nat) :
    marker.Straddles (starts.map (offset + ·)) (offset + position) ↔
      marker.Straddles starts position := by
  constructor
  · rintro ⟨moved, hmoved, hstart, hstop⟩
    obtain ⟨start, hmem, rfl⟩ := List.mem_map.mp hmoved
    exact ⟨start, hmem, by omega, by omega⟩
  · rintro ⟨start, hmem, hstart, hstop⟩
    exact ⟨offset + start, List.mem_map.mpr ⟨start, hmem, rfl⟩, by omega, by omega⟩

theorem straddles_zero_cons_iff {starts : List Nat} (h : marker.length ≤ position) :
    marker.Straddles (0 :: starts) position ↔ marker.Straddles starts position := by
  constructor
  · rintro ⟨start, hmem, hstart, hstop⟩
    rcases List.mem_cons.mp hmem with rfl | hmem
    · omega
    · exact ⟨start, hmem, hstart, hstop⟩
  · rintro ⟨start, hmem, hedges⟩
    exact ⟨start, List.mem_cons_of_mem _ hmem, hedges⟩

theorem shownAt_map_add (marker : Marker) (value : List Char) (starts : List Nat)
    (front text : List Char) (position : Nat) :
    marker.shownAt value (starts.map (front.length + ·)) (front ++ text) (front.length + position) =
      marker.shownAt value starts text position := by
  unfold shownAt
  simp only [straddles_map_add]
  rw [List.getElem?_append_right (Nat.le_add_right _ _), Nat.add_sub_cancel_left]
  simp

theorem shown_plain_zero (c : Char) : marker.shown value (.plain c :: rest) 0 = [c] := by
  unfold shown shownAt
  rw [startsOf_plain, if_neg (by simp), if_neg (by simp [Straddles])]
  rfl

theorem shown_plain_add (c : Char) (position : Nat) :
    marker.shown value (.plain c :: rest) (1 + position) = marker.shown value rest position := by
  unfold shown
  rw [startsOf_plain]
  exact shownAt_map_add _ _ _ [c] _ position

theorem shown_marker_zero : marker.shown value (.marker :: rest) 0 = value := by
  unfold shown shownAt
  rw [startsOf_marker, if_pos List.mem_cons_self]

theorem shown_marker_inside (hpos : 0 < position) (h : position < marker.length) :
    marker.shown value (.marker :: rest) position = [] := by
  have hnew : position ∉ marker.startsOf (.marker :: rest) := by
    rw [startsOf_marker]
    intro hmem
    rcases List.mem_cons.mp hmem with rfl | hmem
    · exact Nat.lt_irrefl 0 hpos
    · obtain ⟨start, -, rfl⟩ := List.mem_map.mp hmem
      omega
  have hstraddles : marker.Straddles (marker.startsOf (.marker :: rest)) position := by
    rw [startsOf_marker]
    exact ⟨0, List.mem_cons_self, hpos, by omega⟩
  unfold shown shownAt
  rw [if_neg hnew, if_pos hstraddles]

theorem shown_marker_add (position : Nat) :
    marker.shown value (.marker :: rest) (marker.length + position) =
      marker.shown value rest position := by
  have hpos := marker.length_pos
  have hshown := marker.shownAt_map_add value (marker.startsOf rest) marker.literal
    (fill marker.literal rest) position
  unfold shown
  rw [startsOf_marker, ← hshown]
  have hstart : marker.length + position ≠ 0 := by omega
  unfold shownAt
  simp only [straddles_zero_cons_iff (Nat.le_add_right marker.length position), List.mem_cons,
    hstart, false_or]
  rfl

theorem fill_append (text : List Char) (first second : List Piece) :
    fill text (first ++ second) = fill text first ++ fill text second := List.flatMap_append

theorem length_fill_plain (text : List Char) (c : Char) (rest : List Piece) :
    (fill text (.plain c :: rest)).length = 1 + (fill text rest).length := Nat.add_comm _ _

theorem length_fill_marker (text : List Char) (rest : List Piece) :
    (fill text (.marker :: rest)).length = text.length + (fill text rest).length :=
  List.length_append

theorem length_literal (marker : Marker) : marker.literal.length = marker.length := rfl

theorem flatMap_range_shown_marker (value : List Char) (rest : List Piece) :
    (List.range marker.length).flatMap (marker.shown value (.marker :: rest)) = value := by
  obtain ⟨inside, hinside⟩ := Nat.exists_eq_add_of_le marker.length_pos
  rw [hinside, List.range_add, List.flatMap_append, List.flatMap_map, List.range_one,
    List.flatMap_singleton, shown_marker_zero]
  have hnothing : (List.range inside).flatMap
      (fun position => marker.shown value (.marker :: rest) (Nat.succ 0 + position)) = [] := by
    refine List.flatMap_eq_nil_iff.mpr fun position hposition => ?_
    have hless := List.mem_range.mp hposition
    exact shown_marker_inside (by omega) (by omega)
  rw [hnothing, List.append_nil]

/-- The positions of some pieces show the pieces with the value in the place of each marker. -/
theorem flatMap_range_shown (marker : Marker) (value : List Char) (pieces behind : List Piece) :
    (List.range (fill marker.literal pieces).length).flatMap
      (marker.shown value (pieces ++ behind)) = fill value pieces := by
  induction pieces with
  | nil => rfl
  | cons piece rest ih =>
    cases piece with
    | plain c =>
      rw [length_fill_plain, List.range_add, List.flatMap_append, List.flatMap_map]
      simp only [List.cons_append, shown_plain_add, ih]
      rw [List.range_one, List.flatMap_singleton, shown_plain_zero]
      rfl
    | marker =>
      rw [length_fill_marker, length_literal, List.range_add, List.flatMap_append,
        List.flatMap_map]
      simp only [List.cons_append, shown_marker_add, ih, flatMap_range_shown_marker]
      rfl

theorem shown_append (value : List Char) (before behind : List Piece) (position : Nat) :
    marker.shown value (before ++ behind) ((fill marker.literal before).length + position) =
      marker.shown value behind position := by
  induction before with
  | nil => simp [fill]
  | cons piece rest ih =>
    cases piece with
    | plain c =>
      rw [length_fill_plain, Nat.add_assoc, List.cons_append, shown_plain_add, ih]
    | marker =>
      rw [length_fill_marker, length_literal, Nat.add_assoc, List.cons_append, shown_marker_add, ih]

/-! ### Stretches between the markers -/

/-- What stands behind some pieces is moved as if it stood behind what they come to. -/
theorem place_append (marker : Marker) (value : List Char) (before behind : List Piece)
    (position : Nat) :
    marker.place value.length (before ++ behind) ((fill marker.literal before).length + position) =
      (fill value before).length + marker.place value.length behind position := by
  induction before with
  | nil => simp [fill]
  | cons piece rest ih =>
    cases piece with
    | plain c =>
      rw [length_fill_plain, length_fill_plain, Nat.add_assoc, Nat.add_comm 1, List.cons_append,
        place, ih]
      omega
    | marker =>
      rw [length_fill_marker, length_fill_marker, length_literal, List.cons_append, place,
        if_neg (by omega), Nat.add_assoc, Nat.add_sub_cancel_left, ih, Nat.add_assoc]

theorem Straddles.append {before behind : List Piece}
    (h : marker.Straddles (marker.startsOf behind) position) :
    marker.Straddles (marker.startsOf (before ++ behind))
      ((fill marker.literal before).length + position) := by
  induction before with
  | nil => simpa [fill] using h
  | cons piece rest ih =>
    cases piece with
    | plain c =>
      rw [length_fill_plain, Nat.add_assoc, List.cons_append, startsOf_plain]
      exact (straddles_map_add _ _ _).mpr ih
    | marker =>
      rw [length_fill_marker, length_literal, Nat.add_assoc, List.cons_append, startsOf_marker]
      exact (straddles_zero_cons_iff (Nat.le_add_right _ _)).mpr ((straddles_map_add _ _ _).mpr ih)

/-- A text can be cut at a position that no marker straddles. -/
theorem exists_cut {pieces : List Piece} {position : Nat}
    (hedge : ¬marker.Straddles (marker.startsOf pieces) position)
    (hle : position ≤ (fill marker.literal pieces).length) :
    ∃ before behind, pieces = before ++ behind ∧
      (fill marker.literal before).length = position := by
  induction pieces generalizing position with
  | nil => exact ⟨[], [], rfl, (Nat.le_zero.mp hle).symm⟩
  | cons piece rest ih =>
    by_cases hzero : position = 0
    · exact ⟨[], piece :: rest, rfl, hzero.symm⟩
    cases piece with
    | plain c =>
      obtain ⟨position, rfl⟩ := Nat.exists_eq_add_of_le (Nat.pos_of_ne_zero hzero)
      rw [startsOf_plain] at hedge
      rw [length_fill_plain] at hle
      obtain ⟨before, behind, rfl, rfl⟩ :=
        ih (mt (straddles_map_add _ 1 _).mpr hedge) (Nat.le_of_add_le_add_left hle)
      exact ⟨.plain c :: before, behind, rfl, length_fill_plain _ _ _⟩
    | marker =>
      rw [startsOf_marker] at hedge
      have hbehind : marker.length ≤ position := Nat.le_of_not_lt fun hinside =>
        hedge ⟨0, List.mem_cons_self, Nat.pos_of_ne_zero hzero, by omega⟩
      obtain ⟨position, rfl⟩ := Nat.exists_eq_add_of_le hbehind
      rw [straddles_zero_cons_iff hbehind, straddles_map_add] at hedge
      rw [length_fill_marker, length_literal] at hle
      obtain ⟨before, behind, rfl, rfl⟩ := ih hedge (Nat.le_of_add_le_add_left hle)
      exact ⟨.marker :: before, behind, rfl, length_fill_marker _ _⟩

/-- A stretch without an edge inside a marker is moved to what its positions show. -/
theorem take_drop_fill (value : List Char) {start length : Nat}
    (hstart : ¬marker.Straddles (marker.startsOf pieces) start)
    (hstop : ¬marker.Straddles (marker.startsOf pieces) (start + length))
    (hle : start + length ≤ (fill marker.literal pieces).length) :
    ((fill value pieces).drop (marker.place value.length pieces start)).take
        (marker.place value.length pieces (start + length) -
          marker.place value.length pieces start) =
      (List.range' start length).flatMap (marker.shown value pieces) := by
  obtain ⟨before, behind, rfl, rfl⟩ := exists_cut hstart (by omega)
  rw [fill_append, List.length_append] at hle
  obtain ⟨middle, after, rfl, rfl⟩ :=
    exists_cut (mt Straddles.append hstop) (Nat.le_of_add_le_add_left hle)
  have hbefore := marker.place_append value before (middle ++ after) 0
  have hmiddle := marker.place_append value middle after 0
  rw [place_zero, Nat.add_zero, Nat.add_zero] at hbefore hmiddle
  have hshown : (List.range' (fill marker.literal before).length
      (fill marker.literal middle).length).flatMap
        (marker.shown value (before ++ (middle ++ after))) = fill value middle := by
    rw [List.range'_eq_map_range, List.flatMap_map]
    simp only [shown_append]
    exact marker.flatMap_range_shown value middle after
  rw [place_append, hbefore, hmiddle, Nat.add_sub_cancel_left, hshown, fill_append, fill_append,
    List.drop_left, List.take_left]

/-! ### Mentions -/

/-- A stretch of a text with the value in the place of each marker in it. -/
def rewritten (marker : Marker) (value text : String) (start length : Nat) : String :=
  String.ofList ((List.range' start length).flatMap
    (marker.shownAt value.toList (marker.starts text) text.toList))

theorem rewritten_eq (marker : Marker) (value text : String) (start length : Nat) :
    marker.rewritten value text start length = String.ofList ((List.range' start length).flatMap
      (marker.shown value.toList (marker.split text.toList))) := by
  unfold rewritten shown
  rw [fill_split]
  rfl

theorem clear_of_not_straddles {valueLength : Nat}
    (h : ¬marker.Straddles (marker.startsOf pieces) position) :
    marker.Clear pieces valueLength position := by
  intro stop hstop hless
  obtain ⟨start, hstart, rfl⟩ := mem_stops_iff.mp hstop
  have hle : position ≤ start := Nat.le_of_not_lt fun hlt => h ⟨start, hstart, hlt, hless⟩
  omega

theorem fill_of_stops_eq_nil (h : marker.stops pieces = []) (text : List Char) :
    fill text pieces = fill marker.literal pieces := by
  induction pieces with
  | nil => rfl
  | cons piece rest ih =>
    cases piece with
    | plain c =>
      have hrest : marker.stops rest = [] := List.eq_nil_iff_forall_not_mem.mpr fun stop hstop =>
        List.not_mem_nil (h ▸ mem_stops_plain.mpr ⟨stop, hstop, rfl⟩)
      exact congrArg (c :: ·) (ih hrest)
    | marker => exact (List.not_mem_nil (h ▸ mem_stops_marker.mpr (.inl rfl))).elim

theorem place_of_stops_eq_nil (h : marker.stops pieces = []) (valueLength position : Nat) :
    marker.place valueLength pieces position = position := by
  simpa [h] using marker.place_add valueLength pieces position

variable {value : String} {e : Example}

/-- The mentions are moved one by one, each edge to its place; without a marker in the text, all stay
where they are. -/
theorem Clears.exists_move (h : marker.Clears value e) (hvalid : e.isValid = true) :
    (marker.substitute value e).text =
        String.ofList (fill value.toList (marker.split e.text.toList)) ∧
      ∃ move : Mention → Mention, (marker.substitute value e).mentions = e.mentions.map move ∧
        ∀ mention ∈ e.mentions, (move mention).slotName = mention.slotName ∧
          (move mention).start =
            marker.place value.length (marker.split e.text.toList) mention.start ∧
          (move mention).stop =
            marker.place value.length (marker.split e.text.toList) mention.stop := by
  unfold substitute
  dsimp only
  split
  · next hempty =>
    have hnone := List.isEmpty_iff.mp hempty
    constructor
    · rw [fill_of_stops_eq_nil hnone, fill_split, String.ofList_toList]
    · refine ⟨id, (List.map_id _).symm, fun mention _ => ⟨rfl, ?_, ?_⟩⟩
      · exact (place_of_stops_eq_nil hnone _ _).symm
      · exact (place_of_stops_eq_nil hnone _ _).symm
  · refine ⟨rfl, _, rfl, fun mention hmention => ⟨rfl, ?_, h.stop_moveMention hvalid hmention⟩⟩
    have hle := Example.isValid_iff.mp hvalid mention hmention
    have hstart : mention.start ≤ mention.stop := Nat.le_add_right _ _
    exact start_moveMention _ _ _ (Nat.lt_of_le_of_lt (Nat.le_trans hstart hle) h.short)

/-- No marker of the text stands over an edge of a mention. -/
def SparesEdges (marker : Marker) (e : Example) : Prop :=
  ∀ mention ∈ e.mentions, ¬marker.Straddles (marker.starts e.text) mention.start ∧
    ¬marker.Straddles (marker.starts e.text) mention.stop

instance : Decidable (marker.SparesEdges e) :=
  inferInstanceAs (Decidable (∀ mention ∈ e.mentions, _ ∧ _))

theorem SparesEdges.clears (h : marker.SparesEdges e) (hshort : e.length < UInt64.size / 2)
    (value : String) : marker.Clears value e where
  short := hshort
  edges mention hmention :=
    ⟨clear_of_not_straddles (h mention hmention).1, clear_of_not_straddles (h mention hmention).2⟩

/-- Putting a value in the place of a marker replaces the leftmost markers of the text that do not
overlap, and keeps the mentions with their slots, in their order and inside the text. A mention without
an edge inside a marker goes on to cover its text, with the value in the place of the markers in it. The
text has fewer than 2^63 characters, as its positions are signed numbers of 64 bits. -/
theorem substitute_aligned (hshort : e.length < UInt64.size / 2) (hvalid : e.isValid = true)
    (hedges : marker.SparesEdges e) (value : String) :
    marker.Leftmost e.text.toList (marker.starts e.text) ∧
    (marker.substitute value e).text = marker.rewritten value e.text 0 e.length ∧
    (marker.substitute value e).isValid = true ∧
    ∃ move : Mention → Mention, (marker.substitute value e).mentions = e.mentions.map move ∧
      (∀ mention ∈ e.mentions, (move mention).slotName = mention.slotName ∧
        (marker.substitute value e).surface? (move mention) =
          some (marker.rewritten value e.text mention.start mention.length)) ∧
      ∀ first ∈ e.mentions, ∀ second ∈ e.mentions, first.start ≤ second.start →
        (move first).start ≤ (move second).start := by
  have hclears := hedges.clears hshort value
  have hinside := hclears.isValid_substitute hvalid
  obtain ⟨htext, move, hmentions, hmove⟩ := hclears.exists_move hvalid
  refine ⟨marker.leftmost_split _, ?_, hinside, move, hmentions, fun mention hmention => ?_, ?_⟩
  · have hall := marker.flatMap_range_shown value.toList (marker.split e.text.toList) []
    rw [List.append_nil, fill_split, String.length_toList] at hall
    rw [htext, rewritten_eq, ← hall, ← List.range_eq_range']
    rfl
  · obtain ⟨hslot, hstart, hstop⟩ := hmove mention hmention
    refine ⟨hslot, ?_⟩
    have hmoved : move mention ∈ (marker.substitute value e).mentions :=
      hmentions ▸ List.mem_map_of_mem hmention
    have hlength : (move mention).length =
        marker.place value.length (marker.split e.text.toList) mention.stop -
          marker.place value.length (marker.split e.text.toList) mention.start := by
      unfold Mention.stop at hstop ⊢
      omega
    have hcovers := take_drop_fill value.toList (hedges mention hmention).1
      (hedges mention hmention).2 (by
        rw [fill_split, String.length_toList]
        exact Example.isValid_iff.mp hvalid mention hmention)
    rw [String.length_toList] at hcovers
    rw [Example.surface?_of_le (Example.isValid_iff.mp hinside _ hmoved), htext, rewritten_eq,
      hstart, hlength, String.toList_ofList, ← hcovers]
    rfl
  · intro first hfirst second hsecond hle
    rw [(hmove first hfirst).2.1, (hmove second hsecond).2.1]
    exact (hclears.edges first hfirst).1.place_mono hle

end Marker

/-! A request with a marker in a mention, and one before another mention. -/

namespace Requests

def who : Marker := ⟨"who"⟩

def request : Example where
  text := "call $who for $who now"
  mentions := [
    { slotName := "task", canonicalValue := "call $who", start := 0, length := 9 },
    { slotName := "time", canonicalValue := "now", start := 19, length := 3 }]

theorem surfaces_request : request.isValid = true ∧ who.SparesEdges request ∧
    (who.substitute "Ada" request).mentions.map (who.substitute "Ada" request).surface? =
      [some "call Ada", some "now"] := by
  have hvalid : request.isValid = true := by decide +kernel
  have hedges : who.SparesEdges request := by decide +kernel
  obtain ⟨-, -, -, move, hmentions, hmove, -⟩ :=
    Marker.substitute_aligned (by decide +kernel) hvalid hedges "Ada"
  have hsurfaces : request.mentions.map (fun mention =>
      some (who.rewritten "Ada" request.text mention.start mention.length)) =
        [some "call Ada", some "now"] := by decide +kernel
  refine ⟨hvalid, hedges, ?_⟩
  rw [hmentions, List.map_map, ← hsurfaces]
  exact List.map_congr_left fun mention hmention => (hmove mention hmention).2

end Requests

end Phrasebook
