import Phrasebook.Marker
import Phrasebook.Proofs.Placement

/-! Where positions go when values take the place of markers. A text is a row of characters and markers,
and a position inside a marker keeps its distance from the start of the marker: that is how mentions
are moved. A value may be shorter than the marker, so that such a position can come to lie behind the
value and even behind the end of the text. A position that does not is clear; mentions with clear
edges stay well placed, and mentions apart from all markers go on to cover the same text. -/

namespace Phrasebook

namespace Marker

theorem length_pos (marker : Marker) : 0 < marker.length := Nat.succ_pos _

theorem fill_nil (text : List Char) : fill text [] = [] := rfl

theorem fill_plain (text : List Char) (c : Char) (rest : List Piece) :
    fill text (.plain c :: rest) = c :: fill text rest := rfl

theorem fill_marker (text : List Char) (rest : List Piece) :
    fill text (.marker :: rest) = text ++ fill text rest := rfl

/-- A text is what its pieces come to with the marker itself in the place of each marker. -/
theorem fill_split (marker : Marker) (cs : List Char) :
    fill marker.literal (marker.split cs) = cs := by
  fun_induction marker.split cs with
  | case1 => rfl
  | case2 c cs hstarts ih =>
    obtain ⟨rest, hrest⟩ : marker.literal <+: c :: cs := by
      unfold startsAt at hstarts
      exact List.isPrefixOf_iff_prefix.mp (Bool.and_eq_true_iff.mp hstarts).1
    have hdrop : (c :: cs).drop marker.length = rest := by
      rw [← hrest]
      exact List.drop_left
    rw [hdrop] at ih ⊢
    rw [fill_marker, ih, hrest]
  | case3 c cs _ ih => rw [fill_plain, ih]

/-! ### The places of positions -/

/-- Where a position lies once a value with the given number of characters stands in the place of each
marker. -/
def place (marker : Marker) (valueLength : Nat) : List Piece → Nat → Nat
  | [], position => position
  | .plain _ :: _, 0 => 0
  | .plain _ :: rest, position + 1 => marker.place valueLength rest position + 1
  | .marker :: rest, position =>
    if position < marker.length then position
    else valueLength + marker.place valueLength rest (position - marker.length)

variable {marker : Marker} {value : List Char} {valueLength : Nat}

theorem go_eq_map (position : Nat) (pieces : List Piece) :
    stops.go marker position pieces = (marker.stops pieces).map (position + ·) := by
  unfold stops
  suffices ∀ a b, stops.go marker (a + b) pieces = (stops.go marker b pieces).map (a + ·) from
    this position 0
  induction pieces with
  | nil => exact fun _ _ => rfl
  | cons piece rest ih =>
    intro a b
    cases piece with
    | plain c => exact ih a (b + 1)
    | marker =>
      have hrest := ih a (b + marker.length)
      simp only [stops.go, List.map_cons, Nat.add_assoc, ← hrest]

theorem mem_stops_plain {c : Char} {rest : List Piece} {stop : Nat} :
    stop ∈ marker.stops (.plain c :: rest) ↔ ∃ s ∈ marker.stops rest, stop = s + 1 := by
  show stop ∈ stops.go marker (0 + 1) rest ↔ _
  simp [go_eq_map, Nat.add_comm, eq_comm]

theorem mem_stops_marker {rest : List Piece} {stop : Nat} :
    stop ∈ marker.stops (.marker :: rest) ↔
      stop = marker.length ∨ ∃ s ∈ marker.stops rest, stop = s + marker.length := by
  show stop ∈ (0 + marker.length) :: stops.go marker (0 + marker.length) rest ↔ _
  simp [go_eq_map, Nat.add_comm, eq_comm]

theorem countP_stops_plain (c : Char) (rest : List Piece) (position : Nat) :
    (marker.stops (.plain c :: rest)).countP (· ≤ position + 1) =
      (marker.stops rest).countP (· ≤ position) := by
  show (stops.go marker (0 + 1) rest).countP _ = _
  rw [go_eq_map, List.countP_map]
  refine List.countP_congr fun stop _ => ?_
  simp
  omega

theorem countP_stops_marker (rest : List Piece) {position : Nat} (h : marker.length ≤ position) :
    (marker.stops (.marker :: rest)).countP (· ≤ position) =
      (marker.stops rest).countP (· ≤ position - marker.length) + 1 := by
  show ((0 + marker.length) :: stops.go marker (0 + marker.length) rest).countP _ = _
  rw [List.countP_cons_of_pos (by simpa using h), go_eq_map, List.countP_map]
  congr 1
  refine List.countP_congr fun stop _ => ?_
  simp
  omega

/-- No marker ends at the start of a text, or inside its own characters. -/
theorem countP_stops_eq_zero {pieces : List Piece} {position : Nat}
    (h : ∀ stop ∈ marker.stops pieces, position < stop) :
    (marker.stops pieces).countP (· ≤ position) = 0 := by
  refine List.countP_eq_zero.mpr fun stop hstop => ?_
  have hlt := h stop hstop
  simp
  omega

/-- Each marker before a position moves it by the difference of the two lengths. -/
theorem place_add (valueLength : Nat) (pieces : List Piece) (position : Nat) :
    marker.place valueLength pieces position +
        (marker.stops pieces).countP (· ≤ position) * marker.length =
      position + (marker.stops pieces).countP (· ≤ position) * valueLength := by
  have hpos := marker.length_pos
  induction pieces generalizing position with
  | nil => simp [place, stops, stops.go]
  | cons piece rest ih =>
    cases piece with
    | plain c =>
      cases position with
      | zero =>
        rw [countP_stops_eq_zero fun stop hstop => ?_]
        · simp [place]
        · obtain ⟨s, -, rfl⟩ := mem_stops_plain.mp hstop
          exact Nat.succ_pos s
      | succ position =>
        have := ih position
        rw [countP_stops_plain, place]
        omega
    | marker =>
      by_cases hinside : position < marker.length
      · rw [countP_stops_eq_zero fun stop hstop => ?_]
        · simp [place, hinside]
        · rcases mem_stops_marker.mp hstop with rfl | ⟨s, -, rfl⟩ <;> omega
      · have := ih (position - marker.length)
        rw [countP_stops_marker rest (Nat.le_of_not_lt hinside), place, if_neg hinside,
          Nat.succ_mul, Nat.succ_mul]
        omega

/-- Positions that are signed numbers of 64 bits are moved to their places. -/
theorem remap_eq_place {pieces : List Piece} {position : Nat} (h : position < UInt64.size / 2) :
    marker.remap (marker.stops pieces) valueLength position =
      marker.place valueLength pieces position := by
  have hplace := marker.place_add valueLength pieces position
  have hint : (Int64.ofNat position).toInt = position := Int64.toInt_ofNat_of_lt h
  unfold remap
  dsimp only
  rw [hint]
  generalize (marker.stops pieces).countP (· ≤ position) = count at hplace
  have hint := congrArg (Nat.cast : Nat → Int) hplace
  push_cast at hint
  omega

theorem place_length (value : List Char) (pieces : List Piece) :
    marker.place value.length pieces (fill marker.literal pieces).length =
      (fill value pieces).length := by
  induction pieces with
  | nil => rfl
  | cons piece rest ih =>
    cases piece with
    | plain c => exact congrArg (· + 1) ih
    | marker =>
      have hfilled (text : List Char) :
          (fill text (.marker :: rest)).length = text.length + (fill text rest).length :=
        List.length_append
      have hliteral : marker.literal.length = marker.length := rfl
      rw [hfilled, hfilled, place, if_neg (by omega), hliteral, Nat.add_sub_cancel_left, ih]

/-! ### Clear positions -/

/-- No marker around the position makes way for a value that ends before the position. -/
def Clear (marker : Marker) (pieces : List Piece) (valueLength position : Nat) : Prop :=
  ∀ stop ∈ marker.stops pieces, position < stop → position + marker.length ≤ stop + valueLength

instance (pieces : List Piece) (position : Nat) :
    Decidable (marker.Clear pieces valueLength position) :=
  inferInstanceAs (Decidable (∀ stop ∈ marker.stops pieces, _ → _))

/-- What stands behind a clear position is moved behind it. -/
theorem Clear.place_mono {pieces : List Piece} {position other : Nat}
    (h : marker.Clear pieces valueLength position) (hle : position ≤ other) :
    marker.place valueLength pieces position ≤ marker.place valueLength pieces other := by
  induction pieces generalizing position other with
  | nil => exact hle
  | cons piece rest ih =>
    cases piece with
    | plain c =>
      cases position with
      | zero => exact Nat.zero_le _
      | succ position =>
        obtain ⟨other, rfl⟩ := Nat.exists_eq_add_of_lt hle
        have hrest : marker.Clear rest valueLength position := by
          intro stop hstop hlt
          have := h (stop + 1) (mem_stops_plain.mpr ⟨stop, hstop, rfl⟩) (by omega)
          omega
        have := ih hrest (Nat.le_add_right position other)
        simpa [place] using this
    | marker =>
      have hmarker := h marker.length (mem_stops_marker.mpr (.inl rfl))
      by_cases hinside : position < marker.length
      · rw [place, if_pos hinside, place]
        split <;> omega
      · have hrest : marker.Clear rest valueLength (position - marker.length) := by
          intro stop hstop hlt
          have := h (stop + marker.length) (mem_stops_marker.mpr (.inr ⟨stop, hstop, rfl⟩))
            (by omega)
          omega
        have := ih hrest (Nat.sub_le_sub_right hle marker.length)
        rw [place, if_neg hinside, place, if_neg (by omega)]
        omega

/-! ### Positions apart from markers -/

/-- Each marker stands before the stretch, or behind it. -/
def Apart (marker : Marker) (pieces : List Piece) (start stop : Nat) : Prop :=
  ∀ s ∈ marker.stops pieces, s ≤ start ∨ stop + marker.length ≤ s

instance (pieces : List Piece) (start stop : Nat) : Decidable (marker.Apart pieces start stop) :=
  inferInstanceAs (Decidable (∀ s ∈ marker.stops pieces, _ ∨ _))

theorem Apart.clear_start {pieces : List Piece} {start length : Nat}
    (h : marker.Apart pieces start (start + length)) : marker.Clear pieces valueLength start := by
  intro stop hstop hlt
  have := h stop hstop
  omega

theorem Apart.clear_stop {pieces : List Piece} {start length : Nat}
    (h : marker.Apart pieces start (start + length)) :
    marker.Clear pieces valueLength (start + length) := by
  intro stop hstop hlt
  have := h stop hstop
  omega

theorem Apart.of_plain {c : Char} {rest : List Piece} {start stop : Nat}
    (h : marker.Apart (.plain c :: rest) (start + 1) (stop + 1)) :
    marker.Apart rest start stop := by
  intro s hs
  have := h (s + 1) (mem_stops_plain.mpr ⟨s, hs, rfl⟩)
  omega

theorem Apart.of_marker {rest : List Piece} {start stop : Nat}
    (h : marker.Apart (.marker :: rest) (start + marker.length) (stop + marker.length)) :
    marker.Apart rest start stop := by
  intro s hs
  have := h (s + marker.length) (mem_stops_marker.mpr (.inr ⟨s, hs, rfl⟩))
  omega

theorem place_zero (pieces : List Piece) : marker.place valueLength pieces 0 = 0 := by
  cases pieces with
  | nil => rfl
  | cons piece rest =>
    cases piece with
    | plain c => rfl
    | marker => exact if_pos marker.length_pos

/-- A stretch apart from all markers is moved as a whole, and its text stays as it is. -/
theorem Apart.take_drop_fill {pieces : List Piece} {start length : Nat}
    (h : marker.Apart pieces start (start + length)) (value : List Char) :
    marker.place value.length pieces (start + length) =
        marker.place value.length pieces start + length ∧
      ((fill value pieces).drop (marker.place value.length pieces start)).take length =
        ((fill marker.literal pieces).drop start).take length := by
  induction pieces generalizing start length with
  | nil => exact ⟨rfl, by simp [fill, place]⟩
  | cons piece rest ih =>
    cases piece with
    | plain c =>
      cases start with
      | zero =>
        cases length with
        | zero => exact ⟨rfl, by simp⟩
        | succ length =>
          have hrest : marker.Apart rest 0 (0 + length) := by
            intro s hs
            have := h (s + 1) (mem_stops_plain.mpr ⟨s, hs, rfl⟩)
            omega
          obtain ⟨hplace, htext⟩ := ih hrest
          rw [place_zero] at hplace htext
          constructor
          · exact congrArg (· + 1) hplace
          · simpa [fill_plain, place] using htext
      | succ start =>
        rw [Nat.add_right_comm] at h
        obtain ⟨hplace, htext⟩ := ih h.of_plain
        constructor
        · rw [Nat.add_right_comm, place, hplace, place]
          omega
        · simpa [fill_plain, place] using htext
    | marker =>
      by_cases hinside : start < marker.length
      · -- Only an empty stretch at the start of the marker is apart from it.
        have hmarker := h marker.length (mem_stops_marker.mpr (.inl rfl))
        obtain ⟨rfl, rfl⟩ : start = 0 ∧ length = 0 := by omega
        exact ⟨rfl, by simp⟩
      · obtain ⟨start, rfl⟩ := Nat.exists_eq_add_of_le' (Nat.le_of_not_lt hinside)
        rw [Nat.add_right_comm] at h
        obtain ⟨hplace, htext⟩ := ih h.of_marker
        have hmoved (position : Nat) :
            marker.place value.length (.marker :: rest) (position + marker.length) =
              value.length + marker.place value.length rest position := by
          rw [place, if_neg (by omega), Nat.add_sub_cancel]
        constructor
        · rw [Nat.add_right_comm, hmoved, hmoved, hplace, Nat.add_assoc]
        · have hliteral : marker.length = marker.literal.length := rfl
          rw [hmoved, fill_marker, fill_marker, List.drop_length_add_append, Nat.add_comm, hliteral,
            List.drop_length_add_append]
          exact htext

/-! ### Mentions -/

section Mentions

variable {pieces : List Piece} {value : String} {mention : Mention}

theorem start_moveMention (marker : Marker) (pieces : List Piece) (value : String)
    (h : mention.start < UInt64.size / 2) :
    (marker.moveMention (marker.stops pieces) value mention).start =
      marker.place value.length pieces mention.start := remap_eq_place h

theorem stop_moveMention (h : mention.stop < UInt64.size / 2)
    (hclear : marker.Clear pieces value.length mention.start) :
    (marker.moveMention (marker.stops pieces) value mention).stop =
      marker.place value.length pieces mention.stop := by
  have hle : mention.start ≤ mention.stop := Nat.le_add_right _ _
  have hmono := hclear.place_mono hle
  have hstart : marker.remap (marker.stops pieces) value.length mention.start = _ :=
    remap_eq_place (Nat.lt_of_le_of_lt hle h)
  have hstop : marker.remap (marker.stops pieces) value.length mention.stop = _ := remap_eq_place h
  have hmoved : (marker.moveMention (marker.stops pieces) value mention).stop =
      marker.remap (marker.stops pieces) value.length mention.start +
        (max (marker.remap (marker.stops pieces) value.length mention.start)
            (marker.remap (marker.stops pieces) value.length mention.stop) -
          marker.remap (marker.stops pieces) value.length mention.start) := rfl
  rw [hmoved, hstart, hstop]
  omega

end Mentions

variable {text : String} {e : Example}

/-- No edge of a mention stands inside a marker beyond the value that takes its place. -/
structure Clears (marker : Marker) (value : String) (e : Example) : Prop where
  /-- All positions are signed numbers of 64 bits. -/
  short : e.length < UInt64.size / 2
  edges : ∀ mention ∈ e.mentions,
    marker.Clear (marker.split e.text.toList) value.length mention.start ∧
      marker.Clear (marker.split e.text.toList) value.length mention.stop

/-- No marker stands in a mention or in its canonical value, nor over an edge of a mention. -/
structure Spares (marker : Marker) (value : String) (e : Example) : Prop where
  /-- All positions are signed numbers of 64 bits. -/
  short : e.length < UInt64.size / 2
  apart : ∀ mention ∈ e.mentions,
    marker.Apart (marker.split e.text.toList) mention.start mention.stop
  canonical : ∀ mention ∈ e.mentions,
    marker.replaceIn value mention.canonicalValue = mention.canonicalValue

theorem Spares.clears (h : marker.Spares text e) : marker.Clears text e where
  short := h.short
  edges mention hmention :=
    ⟨(h.apart mention hmention).clear_start, (h.apart mention hmention).clear_stop⟩

theorem length_filled (marker : Marker) (text : String) (e : Example) :
    (String.ofList (fill text.toList (marker.split e.text.toList))).length =
      marker.place text.length (marker.split e.text.toList) e.length := by
  have hplace := marker.place_length text.toList (marker.split e.text.toList)
  rw [fill_split, String.length_toList, String.length_toList] at hplace
  rw [String.length_ofList, ← hplace]
  rfl

theorem Clears.stop_moveMention (h : marker.Clears text e) (hvalid : e.isValid = true)
    {mention : Mention} (hmention : mention ∈ e.mentions) :
    (marker.moveMention (marker.stops (marker.split e.text.toList)) text mention).stop =
      marker.place text.length (marker.split e.text.toList) mention.stop := by
  have hle := Example.isValid_iff.mp hvalid mention hmention
  exact Marker.stop_moveMention (Nat.lt_of_le_of_lt hle h.short) (h.edges mention hmention).1

/-- Mentions stay inside the text if their edges are clear. -/
theorem Clears.isValid_substitute (h : marker.Clears text e) (hvalid : e.isValid = true) :
    (marker.substitute text e).isValid = true := by
  unfold substitute
  dsimp only
  split
  · exact hvalid
  refine Example.isValid_iff.mpr fun moved hmoved => ?_
  obtain ⟨mention, hmention, rfl⟩ := List.mem_map.mp hmoved
  rw [h.stop_moveMention hvalid hmention, Example.length, length_filled]
  exact (h.edges mention hmention).2.place_mono (Example.isValid_iff.mp hvalid mention hmention)

/-- Well placed mentions stay well placed if their edges are clear. -/
theorem Clears.wellPlaced_substitute (h : marker.Clears text e) (hplaced : e.WellPlaced) :
    (marker.substitute text e).WellPlaced where
  isValid := h.isValid_substitute hplaced.isValid
  ordered := by
    unfold substitute
    dsimp only
    split
    · exact hplaced.ordered
    refine List.pairwise_map.mpr (hplaced.ordered.imp_of_mem fun {a b} ha hb hab => ?_)
    have hstart : b.start < UInt64.size / 2 :=
      Nat.lt_of_le_of_lt (Nat.le_trans (Nat.le_add_right _ _) (hplaced.stop_le hb)) h.short
    rw [h.stop_moveMention hplaced.isValid ha, start_moveMention _ _ _ hstart]
    exact (h.edges a ha).2.place_mono hab

/-- Mentions that are spared go on to cover the same texts, for the same values. -/
theorem Spares.of_mem_substitute (h : marker.Spares text e) (hvalid : e.isValid = true)
    {moved : Mention} (hmoved : moved ∈ (marker.substitute text e).mentions) :
    ∃ mention ∈ e.mentions, moved.canonicalValue = mention.canonicalValue ∧
      (marker.substitute text e).surface? moved = e.surface? mention := by
  unfold substitute at hmoved ⊢
  dsimp only at hmoved ⊢
  split at hmoved
  · next hnone =>
    rw [if_pos hnone]
    exact ⟨moved, hmoved, rfl, rfl⟩
  next hsome =>
  rw [if_neg hsome]
  obtain ⟨mention, hmention, rfl⟩ := List.mem_map.mp hmoved
  refine ⟨mention, hmention, h.canonical mention hmention, ?_⟩
  have hle := Example.isValid_iff.mp hvalid mention hmention
  have hshort : mention.stop < UInt64.size / 2 := Nat.lt_of_le_of_lt hle h.short
  have hclear := h.clears.edges mention hmention
  have hapart : marker.Apart _ mention.start (mention.start + mention.length) :=
    h.apart mention hmention
  obtain ⟨hplace, htext⟩ := hapart.take_drop_fill text.toList
  rw [String.length_toList] at hplace htext
  have hstart := marker.start_moveMention (marker.split e.text.toList) text
    (Nat.lt_of_le_of_lt (Nat.le_add_right _ _) hshort)
  have hstop := h.clears.stop_moveMention hvalid hmention
  have hinside := hclear.2.place_mono hle
  have hlength :
      (marker.moveMention (marker.stops (marker.split e.text.toList)) text mention).length =
        mention.length := by
    unfold Mention.stop at hstop
    omega
  rw [Example.surface?_of_le hle, Example.surface?_of_le]
  · dsimp only
    rw [hstart, hlength, String.toList_ofList, htext, fill_split]
  · rw [hstop, Example.length, length_filled]
    exact hinside

end Marker

end Phrasebook
