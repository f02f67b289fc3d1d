import HtmlIds.Editor.Script
import HtmlIds.Proofs.Text.Rounding

namespace HtmlIds

def overshoot (line : List Char) (column : UInt32) : Nat :=
  if line.getLast? = some '\r' ∧ utf16Length line ≤ column.toNat then 1 else 0

structure CursorsAgree (text : String) : Prop where
  cut : ∀ number < (LineTable.ofText text).lineCount, ∃ start line source,
    (LineTable.ofText text).lineStart? number = some start ∧
    (LineTable.ofText text).lineText? number.toUInt32 = some line ∧
    (LineTable.ofText text).lines[number]? = some source ∧
    (line.getLast? = some '\r' ↔ ['\r', '\r'] <:+ source) ∧
    ∀ column : UInt32, start + utf8Length (textBeforeCursor line column) + overshoot line column =
      (LineTable.ofText text).offsetAt ⟨number.toUInt32, column⟩
  boundary : ∀ line column, textBeforeCursor line column <+: line ∧
    utf8Length (textBeforeCursor line column) = columnOffset line column
  gate : ∀ p line, scriptLine? text p = some line →
    ∃ start, (LineTable.ofText text).lineStart? p.line.toNat = some start ∧
      inScriptRegion text
        (start + columnOffset line p.character + overshoot line p.character) = true
  pastLines : ∀ p : Position, (LineTable.ofText text).lineCount ≤ p.line.toNat →
    scriptLine? text p = none

theorem length_splitLines_le (text : List Char) :
    (splitLines text).length ≤ utf8Length text + 1 := by
  have hcount := (placeAfter_le text).1
  rw [placeAfter_eq] at hcount
  rw [length_splitLines]
  exact Nat.succ_le_succ hcount

theorem bytesBefore_append_of_le {front back : List Char} {column : Nat}
    (h : column ≤ utf16Length front) :
    LineTable.bytesBefore (front ++ back) column = LineTable.bytesBefore front column := by
  induction front generalizing column with
  | nil =>
      obtain rfl := Nat.le_zero.1 h
      cases back <;> rfl
  | cons c front ih =>
      rw [utf16Length_cons] at h
      rw [List.cons_append, LineTable.bytesBefore, LineTable.bytesBefore, ih (by omega)]

theorem columnOffset_eq {line : List Char} (h : '\n' ∉ line) (column : UInt32) :
    columnOffset line column = LineTable.bytesBefore (stripReturn line) column.toNat := by
  have hlines : splitLines line = [] ++ line :: [] := pieces_of_not_mem h
  have hzero : ([] : List (List Char)).length = (⟨0, column⟩ : Position).line.toNat := rfl
  have hoffset := LineTable.offsetAt_append hlines hzero
  rwa [linesSize_nil, Nat.zero_add] at hoffset

theorem columnOffset_add_overshoot {line : List Char} (h : '\n' ∉ line) (column : UInt32) :
    columnOffset line column + overshoot line column =
      LineTable.bytesBefore line column.toNat := by
  rw [columnOffset_eq h, overshoot]
  by_cases hlast : line.getLast? = some '\r'
  · obtain ⟨front, rfl⟩ := List.getLast?_eq_some_iff.1 hlast
    have hwidth : utf16Width '\r' = 1 := rfl
    have hreturn : '\r'.utf8Size = 1 := rfl
    have hlength : utf16Length (front ++ ['\r']) = utf16Length front + 1 := by simp [hwidth]
    rw [stripReturn_concat]
    by_cases hcolumn : utf16Length (front ++ ['\r']) ≤ column.toNat
    · rw [if_pos ⟨hlast, hcolumn⟩, bytesBefore_of_le hcolumn, bytesBefore_of_le (by omega)]
      simp [hreturn]
    · rw [if_neg fun h => hcolumn h.2, bytesBefore_append_of_le (by omega), Nat.add_zero]
  · rw [if_neg fun h => hlast h.1, stripReturn_eq_self hlast, Nat.add_zero]

theorem textBeforeCursor_spec (line : List Char) (column : UInt32) :
    textBeforeCursor line column <+: line ∧
      utf8Length (textBeforeCursor line column) = columnOffset line column := by
  have hboundary : IsBoundary line (columnOffset line column) := isBoundary_offsetAt ⟨0, column⟩
  obtain ⟨before, ⟨after, rfl⟩, hsize⟩ := hboundary
  have hcut : textBeforeCursor (before ++ after) column = before := by
    rw [textBeforeCursor, ← hsize]
    exact takeBytes_append before fun c _ => c.utf8Size_pos
  rw [hcut]
  exact ⟨List.prefix_append before after, hsize⟩

theorem getLast?_stripReturn_iff (source : List Char) :
    (stripReturn source).getLast? = some '\r' ↔ ['\r', '\r'] <:+ source := by
  by_cases hlast : source.getLast? = some '\r'
  · obtain ⟨front, rfl⟩ := List.getLast?_eq_some_iff.1 hlast
    rw [stripReturn_concat, List.getLast?_eq_some_iff]
    constructor
    · rintro ⟨lead, rfl⟩
      exact ⟨lead, by simp⟩
    · rintro ⟨lead, heq⟩
      exact ⟨lead, List.append_cancel_right (by simpa using heq.symm)⟩
  · rw [stripReturn_eq_self hlast]
    refine iff_of_false hlast ?_
    rintro ⟨lead, rfl⟩
    exact hlast (by simp)

variable {text : List Char} {leading others : List (List Char)} {source : List Char}

theorem cut_add_overshoot {p : Position} (h : splitLines text = leading ++ source :: others)
    (hnumber : leading.length = p.line.toNat) :
    linesSize leading + columnOffset (stripReturn source) p.character +
      overshoot (stripReturn source) p.character = (LineTable.ofList text).offsetAt p := by
  obtain ⟨hnewline, -⟩ := exists_of_splitLines h
  have hnot : '\n' ∉ stripReturn source := fun hmem =>
    hnewline ((stripReturn_isPrefix source).mem hmem)
  rw [LineTable.offsetAt_append h hnumber, Nat.add_assoc, columnOffset_add_overshoot hnot]

theorem scriptLine?_eq_some_iff {text : String} {p : Position} {line : List Char} :
    scriptLine? text p = some line ↔
      inScriptRegion text ((LineTable.ofText text).offsetAt p) = true ∧
        (LineTable.ofText text).lineText? p.line = some line := by
  unfold scriptLine?
  simp only [Option.ite_none_right_eq_some]

theorem cursors_agree {text : String} (hsize : utf8Length text.toList < UInt32.size) :
    CursorsAgree text where
  cut := by
    intro number hlt
    obtain ⟨leading, source, others, hlines, hlength⟩ := LineTable.exists_splitLines_of_lt hlt
    have hle := length_splitLines_le text.toList
    have hnumber : leading.length = number.toUInt32.toNat := by
      rw [toNat_toUInt32 (Nat.lt_of_lt_of_le hlt (Nat.le_trans hle hsize)), hlength]
    refine ⟨linesSize leading, stripReturn source, source, ?_,
      LineTable.lineText?_append hlines hnumber, ?_, getLast?_stripReturn_iff source, ?_⟩
    · rw [← hlength]
      exact LineTable.lineStart?_append hlines
    · have hget : (LineTable.ofText text).lines = leading ++ source :: others := hlines
      rw [hget, ← hlength]
      simp
    · intro column
      rw [(textBeforeCursor_spec _ column).2]
      exact cut_add_overshoot (p := ⟨number.toUInt32, column⟩) hlines hnumber
  boundary := textBeforeCursor_spec
  gate := by
    intro p line hscript
    obtain ⟨hin, hline⟩ := scriptLine?_eq_some_iff.1 hscript
    obtain ⟨leading, source, others, hlines, hnumber⟩ :=
      LineTable.exists_splitLines_of_lt (LineTable.lt_lineCount hline)
    obtain rfl := Option.some.inj ((LineTable.lineText?_append hlines hnumber).symm.trans hline)
    refine ⟨linesSize leading, hnumber ▸ LineTable.lineStart?_append hlines, ?_⟩
    rw [cut_add_overshoot hlines hnumber]
    exact hin
  pastLines := by
    intro p hle
    cases hscript : scriptLine? text p with
    | none => rfl
    | some line =>
        have hlt := LineTable.lt_lineCount (scriptLine?_eq_some_iff.1 hscript).2
        exact absurd hlt (Nat.not_lt_of_le hle)

theorem cursors_agree_returns :
    let text := "<script>a\r\nb.😀\r\r\nc\r\r\r\n</script>"
    utf8Length text.toList < UInt32.size ∧ CursorsAgree text := by
  intro text
  have hsize : utf8Length text.toList < UInt32.size := by decide
  exact ⟨hsize, cursors_agree hsize⟩

end HtmlIds
