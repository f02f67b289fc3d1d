import HtmlIds.Proofs.Text.Rounding

namespace HtmlIds

def unitsInWord (text : List Char) : UInt32 :=
  text.foldl (fun units c => units + (utf16Width c).toUInt32) 0

def bytesBeforeInWord (column : UInt32) : UInt32 → List Char → Nat
  | _, [] => 0
  | units, c :: rest =>
    if column ≤ units then 0
    else c.utf8Size + bytesBeforeInWord column (units + (utf16Width c).toUInt32) rest

def LineTable.offsetAtInWord (table : LineTable) (p : Position) : Nat :=
  match table.lineStart? p.line.toNat, table.lineText? p.line with
  | some start, some line => start + bytesBeforeInWord p.character 0 line
  | _, _ => utf8Length table.text

structure SumsFit (text : List Char) : Prop where
  units : utf16Length text < UInt32.size ∧ (unitsInWord text).toNat = utf16Length text
  lines : ∀ offset,
    let line := (LineTable.ofList text).lineAt (utf8Length (takeBytes text offset))
    line < UInt32.size ∧ ((LineTable.ofList text).positionAt offset).line.toNat = line
  columns : ∀ offset,
    let line := (LineTable.ofList text).lineAt (utf8Length (takeBytes text offset))
    let start := (LineTable.ofList text).starts.getD line 0
    let column := utf16Length (dropBytes (takeBytes text offset) start)
    column < UInt32.size ∧ ((LineTable.ofList text).positionAt offset).character.toNat = column
  offsets : ∀ p, (LineTable.ofList text).offsetAtInWord p = (LineTable.ofList text).offsetAt p

theorem toNat_add_width {units : UInt32} {c : Char} (h : units.toNat + utf16Width c < UInt32.size) :
    (units + (utf16Width c).toUInt32).toNat = units.toNat + utf16Width c := by
  have hwidth : (utf16Width c).toUInt32.toNat = utf16Width c := toNat_toUInt32 (by omega)
  rw [UInt32.toNat_add, hwidth]
  exact Nat.mod_eq_of_lt h

theorem toNat_foldl_units {text : List Char} {units : UInt32}
    (h : units.toNat + utf16Length text < UInt32.size) :
    (text.foldl (fun units c => units + (utf16Width c).toUInt32) units).toNat =
      units.toNat + utf16Length text := by
  induction text generalizing units with
  | nil => rfl
  | cons c rest ih =>
      rw [utf16Length_cons] at h
      have hnext : (units + (utf16Width c).toUInt32).toNat = units.toNat + utf16Width c :=
        toNat_add_width (by omega)
      rw [List.foldl_cons, ih (by omega), hnext, utf16Length_cons, Nat.add_assoc]

theorem toNat_unitsInWord {text : List Char} (h : utf16Length text < UInt32.size) :
    (unitsInWord text).toNat = utf16Length text := by
  have hzero : (0 : UInt32).toNat = 0 := rfl
  rw [unitsInWord, toNat_foldl_units (by omega), hzero, Nat.zero_add]

theorem bytesBeforeInWord_eq {line : List Char} {units : UInt32} (column : UInt32)
    (h : units.toNat + utf16Length line < UInt32.size) :
    bytesBeforeInWord column units line =
      LineTable.bytesBefore line (column.toNat - units.toNat) := by
  induction line generalizing units with
  | nil => rfl
  | cons c rest ih =>
      rw [utf16Length_cons] at h
      have hnext : (units + (utf16Width c).toUInt32).toNat = units.toNat + utf16Width c :=
        toNat_add_width (by omega)
      have hreached : column ≤ units ↔ column.toNat - units.toNat = 0 := by
        rw [UInt32.le_iff_toNat_le, Nat.sub_eq_zero_iff_le]
      rw [bytesBeforeInWord, LineTable.bytesBefore, ih (by omega), hnext, Nat.sub_add_eq]
      simp only [hreached]

theorem dropBytes_isSuffix (text : List Char) (bytes : Nat) : dropBytes text bytes <:+ text := by
  induction text generalizing bytes with
  | nil => exact List.suffix_refl []
  | cons c rest ih =>
      rw [dropBytes]
      split
      · exact List.suffix_refl _
      · exact (ih _).trans (List.suffix_cons c rest)

section

variable {text : List Char}

theorem utf8Length_le_of_isInfix {part : List Char} (h : part <:+: text) :
    utf8Length part ≤ utf8Length text := by
  obtain ⟨before, after, rfl⟩ := h
  rw [utf8Length_append, utf8Length_append]
  omega

theorem utf16Length_le_of_isInfix {part : List Char} (h : part <:+: text) :
    utf16Length part ≤ utf8Length text :=
  Nat.le_trans (utf16Length_le_utf8Length part) (utf8Length_le_of_isInfix h)

theorem lineText?_isInfix {number : UInt32} {line : List Char}
    (h : (LineTable.ofList text).lineText? number = some line) : line <:+: text := by
  obtain ⟨leading, source, others, hlines, -, rfl⟩ := LineTable.exists_of_lineText? h
  obtain ⟨-, ahead, after, heq, -⟩ := exists_of_splitLines hlines
  exact (stripReturn_isPrefix source).isInfix.trans ⟨ahead, after, heq.symm⟩

theorem takeBytes_isPrefix (text : List Char) (offset : Nat) : takeBytes text offset <+: text := by
  obtain ⟨before, after, excess, rfl, rfl, hexcess⟩ := exists_excess text offset
  rw [takeBytes_append before hexcess]
  exact List.prefix_append before after

theorem lineAt_takeBytes_le (text : List Char) (offset : Nat) :
    (LineTable.ofList text).lineAt (utf8Length (takeBytes text offset)) ≤ utf8Length text := by
  obtain ⟨after, htext⟩ := takeBytes_isPrefix text offset
  generalize takeBytes text offset = before at htext
  subst htext
  obtain ⟨leading, front, back, others, hlines⟩ := exists_linesAround before after
  have hplace := (placeAfter_le before).1
  rw [hlines.place] at hplace
  rw [LineTable.lineAt_linesAround hlines, utf8Length_append]
  exact Nat.le_trans hplace (Nat.le_add_right ..)

theorem sums_fit (hsize : utf8Length text < UInt32.size) : SumsFit text where
  units := by
    have hlt := Nat.lt_of_le_of_lt (utf16Length_le_utf8Length text) hsize
    exact ⟨hlt, toNat_unitsInWord hlt⟩
  lines := by
    intro offset line
    have hline := Nat.lt_of_le_of_lt (lineAt_takeBytes_le text offset) hsize
    exact ⟨hline, toNat_toUInt32 hline⟩
  columns := by
    intro offset line start column
    have hinfix : dropBytes (takeBytes text offset) start <:+: text :=
      (dropBytes_isSuffix _ _).isInfix.trans (takeBytes_isPrefix text offset).isInfix
    have hcolumn := Nat.lt_of_le_of_lt (utf16Length_le_of_isInfix hinfix) hsize
    exact ⟨hcolumn, toNat_toUInt32 hcolumn⟩
  offsets := by
    intro p
    rw [LineTable.offsetAtInWord, LineTable.offsetAt]
    cases (LineTable.ofList text).lineStart? p.line.toNat with
    | none => rfl
    | some start =>
        cases hline : (LineTable.ofList text).lineText? p.line with
        | none => rfl
        | some line =>
            have hlt := Nat.lt_of_le_of_lt (utf16Length_le_of_isInfix (lineText?_isInfix hline)) hsize
            have hzero : (0 : UInt32).toNat + utf16Length line < UInt32.size := by
              rwa [UInt32.toNat_zero, Nat.zero_add]
            exact congrArg (start + ·) (bytesBeforeInWord_eq p.character hzero)

end

end HtmlIds
