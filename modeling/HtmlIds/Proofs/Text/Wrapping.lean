import HtmlIds.Proofs.Text.WordSums

namespace HtmlIds

/-- Words tell an offset from all earlier ones: they number its line, and no earlier place on the
line has as many units in a word. -/
structure ReachedFirst (before : List Char) : Prop where
  line : before.count '\n' < UInt32.size
  column : ∀ part, part <+: lastLine before → part ≠ lastLine before →
    unitsInWord part < unitsInWord (lastLine before)

theorem foldl_units_eq (units : UInt32) (text : List Char) :
    text.foldl (fun units c => units + (utf16Width c).toUInt32) units =
      units + (utf16Length text).toUInt32 := by
  induction text generalizing units with
  | nil => exact (UInt32.add_zero units).symm
  | cons c rest ih => rw [List.foldl_cons, ih, UInt32.add_assoc, ← UInt32.ofNat_add]; rfl

theorem unitsInWord_eq (text : List Char) : unitsInWord text = (utf16Length text).toUInt32 := by
  rw [unitsInWord, foldl_units_eq, UInt32.zero_add]

theorem bytesBeforeInWord_spec (column units : UInt32) (line : List Char) :
    ∃ front, front <+: line ∧ bytesBeforeInWord column units line = utf8Length front ∧
      (column ≤ units + (utf16Length front).toUInt32 ∨ front = line) ∧
      ∀ part, part <+: front → part ≠ front → units + (utf16Length part).toUInt32 < column := by
  induction line generalizing units with
  | nil =>
      refine ⟨[], List.nil_prefix, rfl, .inr rfl, fun part hpart hne => ?_⟩
      exact absurd (List.prefix_nil.1 hpart) hne
  | cons c rest ih =>
      by_cases hcolumn : column ≤ units
      · refine ⟨[], List.nil_prefix, ?_, .inl ?_, fun part hpart hne => ?_⟩
        · rw [bytesBeforeInWord, if_pos hcolumn]
          rfl
        · exact (UInt32.add_zero units).symm ▸ hcolumn
        · exact absurd (List.prefix_nil.1 hpart) hne
      · have hcons (text : List Char) : units + (utf16Length (c :: text)).toUInt32 =
            units + (utf16Width c).toUInt32 + (utf16Length text).toUInt32 := by
          rw [UInt32.add_assoc, ← UInt32.ofNat_add]
          rfl
        obtain ⟨front, hfront, hbytes, hreach, hearlier⟩ := ih (units + (utf16Width c).toUInt32)
        refine ⟨c :: front, List.cons_prefix_cons.2 ⟨rfl, hfront⟩, ?_, ?_, fun part hpart hne => ?_⟩
        · rw [bytesBeforeInWord, if_neg hcolumn, hbytes, utf8Length_cons]
        · rw [hcons]
          exact hreach.imp_right (congrArg (c :: ·))
        · cases part with
          | nil => exact (UInt32.add_zero units).symm ▸ UInt32.not_le.1 hcolumn
          | cons c' part =>
              obtain ⟨rfl, hpart'⟩ := List.cons_prefix_cons.1 hpart
              rw [hcons]
              exact hearlier part hpart' fun heq => hne (heq ▸ rfl)

theorem bytesBeforeInWord_zero (column : UInt32) (line : List Char) :
    ∃ front, front <+: line ∧ bytesBeforeInWord column 0 line = utf8Length front ∧
      (column ≤ unitsInWord front ∨ front = line) ∧
      ∀ part, part <+: front → part ≠ front → unitsInWord part < column := by
  simpa only [UInt32.zero_add, ← unitsInWord_eq] using bytesBeforeInWord_spec column 0 line

theorem utf16Length_lt_of_prefix {part line : List Char} (h : part <+: line) (hne : part ≠ line) :
    utf16Length part < utf16Length line := by
  obtain ⟨more, rfl⟩ := h
  have hmore : more ≠ [] := fun hnil => hne (by rw [hnil, List.append_nil])
  rw [utf16Length_append]
  exact Nat.lt_add_of_pos_right (utf16Length_pos hmore)

theorem utf16Length_lt_of_suffix {part line : List Char} (h : part <:+ line) (hne : part ≠ line) :
    utf16Length part < utf16Length line := by
  obtain ⟨more, rfl⟩ := h
  have hmore : more ≠ [] := fun hnil => hne (by rw [hnil, List.nil_append])
  rw [utf16Length_append]
  exact Nat.lt_add_of_pos_left (utf16Length_pos hmore)

theorem LinesAround.lastLine_eq {before after front back : List Char} {leading others : List (List Char)}
    (h : LinesAround before after leading front back others) : lastLine before = front := by
  have hunits : utf16Length (lastLine before) = utf16Length front :=
    congrArg Prod.snd ((placeAfter_eq before).symm.trans h.place)
  have hlast : lastLine before <:+ before := List.rtakeWhile_suffix _ before
  by_contra hne
  rcases List.suffix_or_suffix_of_suffix hlast h.suffix with hshort | hlong
  · exact Nat.ne_of_lt (utf16Length_lt_of_suffix hshort hne) hunits
  · exact Nat.ne_of_gt (utf16Length_lt_of_suffix hlong (Ne.symm hne)) hunits

theorem reachedFirst_of_lt {before : List Char} (h : utf8Length before < UInt32.size) :
    ReachedFirst before := by
  obtain ⟨hline, hcolumn⟩ := inWords_of_lt h
  rw [placeAfter_eq] at hline hcolumn
  refine ⟨hline, fun part hpart hne => ?_⟩
  have hlt := utf16Length_lt_of_prefix hpart hne
  rw [unitsInWord_eq, unitsInWord_eq, UInt32.lt_iff_toNat_lt, toNat_toUInt32 hcolumn,
    toNat_toUInt32 (Nat.lt_trans hlt hcolumn)]
  exact hlt

namespace LineTable

theorem offsetAtInWord_append {text line : List Char} {leading others : List (List Char)}
    {p : Position} (h : splitLines text = leading ++ line :: others)
    (hnumber : leading.length = p.line.toNat) :
    (ofList text).offsetAtInWord p =
      linesSize leading + bytesBeforeInWord p.character 0 (stripReturn line) := by
  rw [offsetAtInWord, ← hnumber, lineStart?_append h, lineText?_append h hnumber]

theorem offsetAtInWord_le {text line : List Char} {leading others : List (List Char)} {p : Position}
    (h : splitLines text = leading ++ line :: others) (hnumber : leading.length = p.line.toNat) :
    (ofList text).offsetAtInWord p ≤ linesSize leading + utf8Length (stripReturn line) := by
  obtain ⟨front, hfront, hbytes, -⟩ := bytesBeforeInWord_zero p.character (stripReturn line)
  rw [offsetAtInWord_append h hnumber, hbytes]
  exact Nat.add_le_add_left (utf8Length_mono hfront) _

section Around

variable {before after front back : List Char} {leading others : List (List Char)}
  (h : LinesAround before after leading front back others)

include h

theorem offsetAtInWord_lt_of_line (hline : UInt32.size ≤ leading.length) :
    (ofList (before ++ after)).offsetAtInWord (toPosition (placeAfter before)) <
      utf8Length before := by
  have hwrap : (toPosition (placeAfter before)).line.toNat < leading.length :=
    Nat.lt_of_lt_of_le (UInt32.toNat_lt _) hline
  have hlt : (toPosition (placeAfter before)).line.toNat < (splitLines (before ++ after)).length := by
    rw [h.lines, List.length_append]
    omega
  obtain ⟨leading', line', others', hlines', hnumber'⟩ := exists_splitLines_of_lt hlt
  have hle := offsetAtInWord_le hlines' hnumber'
  have hstrip := utf8Length_mono (stripReturn_isPrefix line')
  have hstart := lt_lineStart? hlines' (by omega) (lineStart?_append h.lines)
  have hsize := h.size
  omega

theorem toNat_line_toPosition (hline : leading.length < UInt32.size) :
    leading.length = (toPosition (placeAfter before)).line.toNat := by
  rw [h.place]
  exact (toNat_toUInt32 hline).symm

theorem offsetAtInWord_lt_of_endsAtReturn (hline : leading.length < UInt32.size)
    (hreturn : EndsAtReturn before after) :
    (ofList (before ++ after)).offsetAtInWord (toPosition (placeAfter before)) <
      utf8Length before := by
  have hle := offsetAtInWord_le h.lines (toNat_line_toPosition h hline)
  obtain ⟨line, rfl, rfl⟩ := h.of_endsAtReturn hreturn
  have hpos := '\r'.utf8Size_pos
  rw [List.append_nil, stripReturn_concat] at hle
  rw [h.size, utf8Length_append, utf8Length_cons]
  omega

theorem offsetAtInWord_eq_iff (hline : leading.length < UInt32.size)
    (hreturn : ¬EndsAtReturn before after) :
    (ofList (before ++ after)).offsetAtInWord (toPosition (placeAfter before)) = utf8Length before ↔
      ∀ part, part <+: front → part ≠ front → unitsInWord part < unitsInWord front := by
  have hcharacter : (toPosition (placeAfter before)).character = unitsInWord front := by
    rw [h.place, unitsInWord_eq]
    rfl
  have hstrip := stripReturn_append (h.back_ne_nil (exists_of_not_endsAtReturn hreturn))
  obtain ⟨reached, hprefix, hbytes, hreach, hearlier⟩ :=
    bytesBeforeInWord_zero (unitsInWord front) (front ++ stripReturn back)
  have hfront : front <+: front ++ stripReturn back := List.prefix_append front _
  rw [offsetAtInWord_append h.lines (toNat_line_toPosition h hline), hcharacter, hstrip, hbytes,
    h.size, Nat.add_left_cancel_iff]
  constructor
  · intro hlength
    have heq : reached = front := by
      have hle := prefix_of_utf8Length_le hprefix hfront (Nat.le_of_eq hlength)
      have hge := prefix_of_utf8Length_le hfront hprefix (Nat.le_of_eq hlength.symm)
      exact hle.eq_of_length_le hge.length_le
    exact heq ▸ hearlier
  · intro hfirst
    by_contra hlength
    have hne : reached ≠ front := fun heq => hlength (heq ▸ rfl)
    rcases List.prefix_or_prefix_of_prefix hprefix hfront with hshort | hlong
    · -- the search stops earlier only where as many units have been reached
      rcases hreach with hle | rfl
      · exact UInt32.not_lt.2 hle (hfirst reached hshort hne)
      · exact hne (hshort.eq_of_length_le hfront.length_le)
    · exact UInt32.lt_irrefl _ (hearlier front hlong hne.symm)

end Around

theorem offsetAtInWord_positionAt_eq_iff (before after : List Char) :
    (ofList (before ++ after)).offsetAtInWord
        ((ofList (before ++ after)).positionAt (utf8Length before)) = utf8Length before ↔
      ¬EndsAtReturn before after ∧ ReachedFirst before := by
  obtain ⟨leading, front, back, others, h⟩ := exists_linesAround before after
  have hcount : before.count '\n' = leading.length :=
    congrArg Prod.fst ((placeAfter_eq before).symm.trans h.place)
  rw [positionAt_ofList]
  by_cases hline : leading.length < UInt32.size
  · by_cases hreturn : EndsAtReturn before after
    · have hlt := offsetAtInWord_lt_of_endsAtReturn h hline hreturn
      exact iff_of_false (Nat.ne_of_lt hlt) fun hnot => hnot.1 hreturn
    · rw [offsetAtInWord_eq_iff h hline hreturn, ← h.lastLine_eq]
      exact ⟨fun hfirst => ⟨hreturn, hcount ▸ hline, hfirst⟩, fun hfirst => hfirst.2.column⟩
  · have hlt := offsetAtInWord_lt_of_line h (Nat.le_of_not_lt hline)
    exact iff_of_false (Nat.ne_of_lt hlt) fun hnot => hline (hcount ▸ hnot.2.line)

end LineTable

end HtmlIds
