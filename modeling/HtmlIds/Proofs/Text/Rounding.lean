import HtmlIds.Proofs.Text.Counting
import HtmlIds.Proofs.Text.RoundTrip

namespace HtmlIds

def Adequate (text : List Char) (start stop column : Nat) : Set Nat :=
  {o | start ≤ o ∧ o ≤ stop ∧
    ∃ before, before <+: text ∧ utf8Length before = o ∧ column ≤ utf16Length (lastLine before)}

structure OffsetsRound (text : List Char) : Prop where
  inLine : ∀ p : Position, p.line.toNat < (LineTable.ofList text).lineCount → ∃ start line,
    (LineTable.ofList text).lineStart? p.line.toNat = some start ∧
    (LineTable.ofList text).lineText? p.line = some line ∧
    let adequate := Adequate text start (start + utf8Length line) p.character.toNat
    let offset := (LineTable.ofList text).offsetAt p
    IsLeast adequate offset ∨ adequate = ∅ ∧ offset = start + utf8Length line
  pastLines : ∀ p : Position, (LineTable.ofList text).lineCount ≤ p.line.toNat →
    (LineTable.ofList text).offsetAt p = utf8Length text
  boundary : ∀ p, IsBoundary text ((LineTable.ofList text).offsetAt p) ∧
    (LineTable.ofList text).offsetAt p ≤ utf8Length text
  onLine : ∀ p : Position, p.line.toNat < (LineTable.ofList text).lineCount →
    ∃ before, before <+: text ∧ utf8Length before = (LineTable.ofList text).offsetAt p ∧
      (bytesOf before).count 10 = p.line.toNat
  monotone : ∀ p q, p ≤ q → (LineTable.ofList text).offsetAt p ≤ (LineTable.ofList text).offsetAt q

theorem utf16Length_mono {front text : List Char} (h : front <+: text) :
    utf16Length front ≤ utf16Length text := by
  obtain ⟨back, rfl⟩ := h
  rw [utf16Length_append]
  exact Nat.le_add_right ..

theorem bytesBefore_spec (line : List Char) (column : Nat) :
    ∃ front, front <+: line ∧ LineTable.bytesBefore line column = utf8Length front ∧
      (column ≤ utf16Length front ∨ front = line) ∧
      ∀ front', front' <+: line → column ≤ utf16Length front' → front <+: front' := by
  induction line generalizing column with
  | nil => exact ⟨[], List.nil_prefix, rfl, .inr rfl, fun _ _ _ => List.nil_prefix⟩
  | cons c rest ih =>
      by_cases hcolumn : column = 0
      · subst hcolumn
        exact ⟨[], List.nil_prefix, rfl, .inl (Nat.zero_le _), fun _ _ _ => List.nil_prefix⟩
      · obtain ⟨front, hfront, hbytes, hreach, hleast⟩ := ih (column - utf16Width c)
        refine ⟨c :: front, List.cons_prefix_cons.2 ⟨rfl, hfront⟩, ?_, ?_, ?_⟩
        · rw [LineTable.bytesBefore, if_neg hcolumn, hbytes, utf8Length_cons]
        · rcases hreach with hle | rfl
          · rw [utf16Length_cons]
            exact .inl (by omega)
          · exact .inr rfl
        · intro front' hfront' hle
          cases front' with
          | nil => exact absurd (Nat.le_zero.1 hle) hcolumn
          | cons c' front' =>
              obtain ⟨rfl, hrest⟩ := List.cons_prefix_cons.1 hfront'
              rw [utf16Length_cons] at hle
              exact List.cons_prefix_cons.2 ⟨rfl, hleast front' hrest (by omega)⟩

theorem bytesBefore_mono (line : List Char) {column column' : Nat} (hle : column ≤ column') :
    LineTable.bytesBefore line column ≤ LineTable.bytesBefore line column' := by
  obtain ⟨front, hfront, hbytes, -, hleast⟩ := bytesBefore_spec line column
  obtain ⟨front', hfront', hbytes', hreach', -⟩ := bytesBefore_spec line column'
  rw [hbytes, hbytes']
  rcases hreach' with hreach | rfl
  · exact utf8Length_mono (hleast front' hfront' (Nat.le_trans hle hreach))
  · exact utf8Length_mono hfront

theorem stripReturn_isPrefix (line : List Char) : stripReturn line <+: line := by
  obtain ⟨more, hmore, -⟩ := exists_of_stripReturn (List.append_nil (stripReturn line)).symm
  exact ⟨more, hmore.symm⟩

section

variable {text line : List Char} {leading others : List (List Char)}

theorem exists_front (h : splitLines text = leading ++ line :: others) {before : List Char}
    (hbefore : before <+: text) (hstart : linesSize leading ≤ utf8Length before)
    (hstop : utf8Length before ≤ linesSize leading + utf8Length line) :
    ∃ front, front <+: line ∧ utf8Length before = linesSize leading + utf8Length front ∧
      placeAfter before = (leading.length, utf16Length front) := by
  obtain ⟨after, rfl⟩ := hbefore
  obtain ⟨leading', front, back, others', hlines⟩ := exists_linesAround before after
  have hsize := hlines.size
  -- two lines that hold one boundary are the same line
  have hlength : leading'.length = leading.length := by
    rcases Nat.lt_trichotomy leading'.length leading.length with hlt | heq | hgt
    · have hle := LineTable.lt_lineStart? hlines.lines hlt (LineTable.lineStart?_append h)
      rw [utf8Length_append] at hle
      omega
    · exact heq
    · have hle := LineTable.lt_lineStart? h hgt (LineTable.lineStart?_append hlines.lines)
      omega
  obtain ⟨rfl, hcons⟩ := List.append_inj (hlines.lines.symm.trans h) hlength
  obtain ⟨rfl, -⟩ := List.cons.inj hcons
  exact ⟨front, List.prefix_append front back, hsize, hlines.place⟩

theorem exists_before (h : splitLines text = leading ++ line :: others) {front : List Char}
    (hfront : front <+: line) :
    ∃ before, before <+: text ∧ utf8Length before = linesSize leading + utf8Length front ∧
      placeAfter before = (leading.length, utf16Length front) := by
  obtain ⟨back, rfl⟩ := hfront
  obtain ⟨-, ahead, after, rfl, hahead, -⟩ := exists_of_splitLines h
  have hprefix : ahead ++ front <+: ahead ++ (front ++ back) ++ after := ⟨back ++ after, by simp⟩
  have hsize : utf8Length (ahead ++ front) = linesSize leading + utf8Length front := by
    rw [utf8Length_append, hahead]
  obtain ⟨front', hfront', hsize', hplace⟩ := exists_front h hprefix (hsize ▸ Nat.le_add_right ..)
    (by rw [hsize, utf8Length_append]; omega)
  refine ⟨ahead ++ front, hprefix, hsize, ?_⟩
  have hfront := List.prefix_append front back
  have heq : front' = front := by
    have hle := prefix_of_utf8Length_le hfront' hfront (by omega)
    have hge := prefix_of_utf8Length_le hfront hfront' (by omega)
    exact hle.eq_of_length_le hge.length_le
  rw [hplace, heq]

theorem mem_adequate_iff (h : splitLines text = leading ++ line :: others) {part : List Char}
    (hpart : part <+: line) {column o : Nat} :
    o ∈ Adequate text (linesSize leading) (linesSize leading + utf8Length part) column ↔
      ∃ front, front <+: part ∧ o = linesSize leading + utf8Length front ∧
        column ≤ utf16Length front := by
  have hcolumn {before front : List Char}
      (hplace : placeAfter before = (leading.length, utf16Length front)) :
      utf16Length (lastLine before) = utf16Length front :=
    congrArg Prod.snd ((placeAfter_eq before).symm.trans hplace)
  constructor
  · rintro ⟨hstart, hstop, before, hbefore, rfl, hle⟩
    have hlength := utf8Length_mono hpart
    obtain ⟨front, hfront, hsize, hplace⟩ := exists_front h hbefore hstart (by omega)
    exact ⟨front, prefix_of_utf8Length_le hfront hpart (by omega), hsize, hcolumn hplace ▸ hle⟩
  · rintro ⟨front, hfront, rfl, hle⟩
    have hlength := utf8Length_mono hfront
    obtain ⟨before, hbefore, hsize, hplace⟩ := exists_before h (hfront.trans hpart)
    exact ⟨by omega, by omega, before, hbefore, hsize, (hcolumn hplace).symm ▸ hle⟩

variable {p q : Position}

theorem offsetAt_isLeast (h : splitLines text = leading ++ line :: others)
    (hnumber : leading.length = p.line.toNat) :
    let adequate := Adequate text (linesSize leading)
      (linesSize leading + utf8Length (stripReturn line)) p.character.toNat
    let offset := (LineTable.ofList text).offsetAt p
    IsLeast adequate offset ∨
      adequate = ∅ ∧ offset = linesSize leading + utf8Length (stripReturn line) := by
  intro adequate offset
  obtain ⟨front, hfront, hbytes, hreach, hleast⟩ :=
    bytesBefore_spec (stripReturn line) p.character.toNat
  have hoffset : offset = linesSize leading + utf8Length front := by
    rw [← hbytes]
    exact LineTable.offsetAt_append h hnumber
  have hmem {o : Nat} : o ∈ adequate ↔ ∃ front, front <+: stripReturn line ∧
      o = linesSize leading + utf8Length front ∧ p.character.toNat ≤ utf16Length front :=
    mem_adequate_iff h (stripReturn_isPrefix line)
  rw [hoffset]
  by_cases hle : p.character.toNat ≤ utf16Length front
  · refine .inl ⟨hmem.2 ⟨front, hfront, rfl, hle⟩, fun o ho => ?_⟩
    obtain ⟨front', hfront', rfl, hle'⟩ := hmem.1 ho
    exact Nat.add_le_add_left (utf8Length_mono (hleast front' hfront' hle')) _
  · obtain rfl := hreach.resolve_left hle
    refine .inr ⟨Set.eq_empty_of_forall_notMem fun o ho => ?_, rfl⟩
    obtain ⟨front', hfront', -, hle'⟩ := hmem.1 ho
    exact hle (Nat.le_trans hle' (utf16Length_mono hfront'))

theorem exists_before_offsetAt (h : splitLines text = leading ++ line :: others)
    (hnumber : leading.length = p.line.toNat) :
    ∃ before, before <+: text ∧ utf8Length before = (LineTable.ofList text).offsetAt p ∧
      (placeAfter before).1 = p.line.toNat ∧
      utf8Length before ≤ linesSize leading + utf8Length line := by
  obtain ⟨front, hfront, hbytes, -⟩ := bytesBefore_spec (stripReturn line) p.character.toNat
  have hline := hfront.trans (stripReturn_isPrefix line)
  have hlength := utf8Length_mono hline
  obtain ⟨before, hbefore, hsize, hplace⟩ := exists_before h hline
  refine ⟨before, hbefore, ?_, ?_, by omega⟩
  · rw [LineTable.offsetAt_append h hnumber, hbytes, hsize]
  · rw [hplace, hnumber]

theorem isBoundary_offsetAt (p : Position) :
    IsBoundary text ((LineTable.ofList text).offsetAt p) := by
  rcases Nat.lt_or_ge p.line.toNat (LineTable.ofList text).lineCount with hlt | hge
  · obtain ⟨leading, line, others, hlines, hnumber⟩ := LineTable.exists_splitLines_of_lt hlt
    obtain ⟨before, hbefore, hsize, -⟩ := exists_before_offsetAt hlines hnumber
    exact ⟨before, hbefore, hsize⟩
  · exact ⟨text, List.prefix_refl text, (LineTable.offsetAt_of_lineCount_le hge).symm⟩

theorem IsBoundary.le {o : Nat} (h : IsBoundary text o) : o ≤ utf8Length text := by
  obtain ⟨before, hbefore, rfl⟩ := h
  exact utf8Length_mono hbefore

theorem offsetAt_le (h : p ≤ q) :
    (LineTable.ofList text).offsetAt p ≤ (LineTable.ofList text).offsetAt q := by
  rcases Nat.lt_or_ge q.line.toNat (LineTable.ofList text).lineCount with hlt | hge
  · obtain ⟨leading, line, others, hlines, hnumber⟩ := LineTable.exists_splitLines_of_lt hlt
    rw [LineTable.offsetAt_append hlines hnumber]
    rcases h with hline | ⟨hline, hcharacter⟩
    · have hlineNat := UInt32.lt_iff_toNat_lt.1 hline
      obtain ⟨leading', line', others', hlines', hnumber'⟩ :=
        LineTable.exists_splitLines_of_lt (Nat.lt_trans hlineNat hlt)
      obtain ⟨before, -, hoffset, -, hstop⟩ := exists_before_offsetAt hlines' hnumber'
      have hstart := LineTable.lt_lineStart? hlines' (by omega) (LineTable.lineStart?_append hlines)
      omega
    · rw [LineTable.offsetAt_append hlines (hline ▸ hnumber)]
      exact Nat.add_le_add_left (bytesBefore_mono _ (UInt32.le_iff_toNat_le.1 hcharacter)) _
  · rw [LineTable.offsetAt_of_lineCount_le hge]
    exact (isBoundary_offsetAt p).le

end

theorem offsets_round (text : List Char) : OffsetsRound text where
  inLine := by
    intro p hlt
    obtain ⟨leading, line, others, hlines, hnumber⟩ := LineTable.exists_splitLines_of_lt hlt
    refine ⟨linesSize leading, stripReturn line, ?_, LineTable.lineText?_append hlines hnumber,
      offsetAt_isLeast hlines hnumber⟩
    rw [← hnumber]
    exact LineTable.lineStart?_append hlines
  pastLines := fun p => LineTable.offsetAt_of_lineCount_le
  boundary := fun p => ⟨isBoundary_offsetAt p, (isBoundary_offsetAt p).le⟩
  onLine := by
    intro p hlt
    obtain ⟨leading, line, others, hlines, hnumber⟩ := LineTable.exists_splitLines_of_lt hlt
    obtain ⟨before, hbefore, hsize, hplace, -⟩ := exists_before_offsetAt hlines hnumber
    refine ⟨before, hbefore, hsize, ?_⟩
    rw [count_bytesOf, ← hplace, placeAfter_eq]
  monotone := fun _ _ => offsetAt_le

end HtmlIds
