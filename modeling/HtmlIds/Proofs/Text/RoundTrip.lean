import HtmlIds.Proofs.Text.LineTable
import Mathlib.Data.List.Basic

namespace HtmlIds

def EndsAtReturn (before after : List Char) : Prop :=
  before.getLast? = some '\r' ∧ (after = [] ∨ after.head? = some '\n')

instance (before after : List Char) : Decidable (EndsAtReturn before after) :=
  inferInstanceAs (Decidable (before.getLast? = some '\r' ∧ (after = [] ∨ after.head? = some '\n')))

structure OffsetsReturn (text : List Char) : Prop where
  boundary : ∀ before after, text = before ++ after →
    (LineTable.ofList text).offsetAt ((LineTable.ofList text).positionAt (utf8Length before)) =
      if EndsAtReturn before after then utf8Length before - 1 else utf8Length before
  inside : ∀ before c after excess, text = before ++ c :: after → excess < c.utf8Size →
    (LineTable.ofList text).positionAt (utf8Length before + excess) =
      (LineTable.ofList text).positionAt (utf8Length before)
  past : ∀ offset, utf8Length text ≤ offset →
    (LineTable.ofList text).positionAt offset = (LineTable.ofList text).positionAt (utf8Length text)
  inLine : ∀ number start front back,
    (LineTable.ofList text).lineStart? number.toNat = some start →
      (LineTable.ofList text).lineText? number = some (front ++ back) →
        let p := (LineTable.ofList text).positionAt (start + utf8Length front)
        (LineTable.ofList text).offsetAt p = start + utf8Length front ∧
          (LineTable.ofList text).positionAt ((LineTable.ofList text).offsetAt p) = p

theorem bytesBefore_of_le {line : List Char} {column : Nat} (h : utf16Length line ≤ column) :
    LineTable.bytesBefore line column = utf8Length line := by
  induction line generalizing column with
  | nil => rfl
  | cons c rest ih =>
      have hpos := utf16Width_pos c
      rw [utf16Length_cons] at h
      rw [LineTable.bytesBefore, if_neg (by omega), ih (by omega), utf8Length_cons]

theorem exists_of_splitLines {text line : List Char} {leading others : List (List Char)}
    (h : splitLines text = leading ++ line :: others) :
    '\n' ∉ line ∧ ∃ ahead after, text = ahead ++ line ++ after ∧
      utf8Length ahead = linesSize leading ∧ ahead.getLast? ≠ some '\r' := by
  induction leading generalizing text with
  | nil =>
      obtain ⟨hmem, ⟨rfl, -⟩ | ⟨rest, rfl, -⟩⟩ := pieces_eq_cons h
      · exact ⟨hmem, [], [], (List.append_nil _).symm, rfl, nofun⟩
      · exact ⟨hmem, [], '\n' :: rest, rfl, rfl, nofun⟩
  | cons first leading ih =>
      obtain ⟨-, ⟨-, hnil⟩ | ⟨rest, rfl, hrest⟩⟩ := pieces_eq_cons h
      · exact absurd hnil (List.append_ne_nil_of_right_ne_nil leading (List.cons_ne_nil line others))
      · obtain ⟨hmem, ahead, after, rfl, hsize, hlast⟩ := ih hrest
        refine ⟨hmem, first ++ '\n' :: ahead, after, by simp, ?_, ?_⟩
        · have hnewline : '\n'.utf8Size = 1 := rfl
          rw [utf8Length_append, utf8Length_cons, hsize, linesSize_cons, hnewline]
          omega
        · rw [List.getLast?_append_of_ne_nil _ (List.cons_ne_nil _ _)]
          cases ahead with
          | nil => decide
          | cons => exact hlast

theorem exists_of_stripReturn {line front back : List Char} (h : stripReturn line = front ++ back) :
    ∃ more, line = front ++ more ∧ (front.getLast? = some '\r' → more ≠ []) := by
  induction line generalizing front with
  | nil =>
      obtain ⟨rfl, rfl⟩ := List.append_eq_nil_iff.1 h.symm
      exact ⟨[], rfl, nofun⟩
  | cons c rest ih =>
      cases front with
      | nil => exact ⟨c :: rest, rfl, nofun⟩
      | cons first front =>
          by_cases hlast : c = '\r' ∧ rest = []
          · obtain ⟨rfl, rfl⟩ := hlast
            cases h
          · rw [stripReturn_cons fun hc hnil => hlast ⟨hc, hnil⟩] at h
            obtain ⟨rfl, hrest⟩ := List.cons.inj h
            obtain ⟨more, rfl, hmore⟩ := ih hrest
            refine ⟨more, rfl, fun hreturn => ?_⟩
            cases front with
            | nil => exact fun hnil => hlast ⟨Option.some.inj hreturn, hnil⟩
            | cons => exact hmore hreturn

theorem LinesAround.getLast?_front {before after front back : List Char}
    {leading others : List (List Char)} (h : LinesAround before after leading front back others)
    {c : Char} (hlast : before.getLast? = some c) (hc : c ≠ '\n') : front.getLast? = some c := by
  have hfront : front ≠ [] := by
    rintro rfl
    obtain ⟨start, rfl⟩ := List.getLast?_eq_some_iff.1 hlast
    have hcolumn := congrArg Prod.snd h.place
    rw [placeAfter_concat, advance, if_neg hc] at hcolumn
    have hpos := utf16Width_pos c
    simp at hcolumn
    omega
  obtain ⟨lead, rfl⟩ := h.suffix
  rwa [List.getLast?_append_of_ne_nil lead hfront] at hlast

theorem LinesAround.of_endsAtReturn {before after front back : List Char}
    {leading others : List (List Char)} (hlines : LinesAround before after leading front back others)
    (h : EndsAtReturn before after) : ∃ line, front = line ++ ['\r'] ∧ back = [] := by
  obtain ⟨hlast, hafter⟩ := h
  obtain ⟨line, hline⟩ := List.getLast?_eq_some_iff.1 (hlines.getLast?_front hlast (by decide))
  refine ⟨line, hline, ?_⟩
  have hahead := hlines.ahead
  rcases hafter with rfl | hnewline
  · exact (List.cons.inj hahead).1.symm
  · obtain ⟨rest, rfl⟩ := List.head?_eq_some_iff.1 hnewline
    rw [splitLines_newline] at hahead
    exact (List.cons.inj hahead).1.symm

theorem exists_of_not_endsAtReturn {before after : List Char} (h : ¬EndsAtReturn before after)
    (hlast : before.getLast? = some '\r') : ∃ c rest, after = c :: rest ∧ c ≠ '\n' := by
  cases after with
  | nil => exact absurd ⟨hlast, .inl rfl⟩ h
  | cons c rest => exact ⟨c, rest, rfl, fun hc => h ⟨hlast, .inr (congrArg some hc)⟩⟩

namespace LineTable

variable {before after : List Char}

theorem offsetAt_of_endsAtReturn (hwords : InWords before) (h : EndsAtReturn before after) :
    (ofList (before ++ after)).offsetAt (toPosition (placeAfter before)) = utf8Length before - 1 := by
  obtain ⟨leading, front, back, others, hlines⟩ := exists_linesAround before after
  obtain ⟨line, rfl, rfl⟩ := hlines.of_endsAtReturn h
  have hreturn : '\r'.utf8Size = 1 := rfl
  rw [offsetAt_linesAround hlines hwords, List.append_nil, stripReturn_concat,
    bytesBefore_of_le (by simp), hlines.size, utf8Length_append, utf8Length_cons, hreturn]
  rfl

theorem offsetAt_boundary (before after : List Char) (hwords : InWords before) :
    (ofList (before ++ after)).offsetAt
        ((ofList (before ++ after)).positionAt (utf8Length before)) =
      if EndsAtReturn before after then utf8Length before - 1 else utf8Length before := by
  rw [positionAt_ofList]
  split
  · next h => exact offsetAt_of_endsAtReturn hwords h
  · next h => exact offsetAt_toPosition hwords (exists_of_not_endsAtReturn h)

theorem exists_boundary_of_lineText? {text front back : List Char} {number : UInt32} {start : Nat}
    (hstart : (ofList text).lineStart? number.toNat = some start)
    (hline : (ofList text).lineText? number = some (front ++ back)) :
    ∃ before after, text = before ++ after ∧ utf8Length before = start + utf8Length front ∧
      ¬EndsAtReturn before after := by
  obtain ⟨leading, line, others, hlines, hlength, hstrip⟩ := exists_of_lineText? hline
  rw [← hlength, lineStart?_append hlines] at hstart
  obtain rfl := Option.some.inj hstart
  obtain ⟨hnewline, ahead, after, rfl, hsize, hahead⟩ := exists_of_splitLines hlines
  obtain ⟨more, rfl, hmore⟩ := exists_of_stripReturn hstrip
  refine ⟨ahead ++ front, more ++ after, by simp, by rw [utf8Length_append, hsize], ?_⟩
  rintro ⟨hlast, hnext⟩
  have hfront : front.getLast? = some '\r' := by
    cases front with
    | nil => exact absurd (List.append_nil ahead ▸ hlast) hahead
    | cons => rwa [List.getLast?_append_of_ne_nil _ (List.cons_ne_nil _ _)] at hlast
  obtain ⟨c, rest, rfl⟩ := List.exists_cons_of_ne_nil (hmore hfront)
  have hc : c = '\n' := by simpa using hnext
  exact hnewline (by simp [hc])

end LineTable

theorem offsets_return {text : List Char} (hsize : utf8Length text < UInt32.size) :
    OffsetsReturn text where
  boundary := by
    rintro before after rfl
    rw [utf8Length_append] at hsize
    exact LineTable.offsetAt_boundary before after (inWords_of_lt (by omega))
  inside := by
    rintro before c after excess rfl hexcess
    have hhead : ∀ c' ∈ (c :: after).head?, excess < c'.utf8Size := by
      rintro c' hc'
      exact Option.some.inj hc' ▸ hexcess
    rw [LineTable.positionAt_add before excess hhead, LineTable.positionAt_ofList]
  past := by
    intro offset hle
    obtain ⟨excess, rfl⟩ := Nat.exists_eq_add_of_le hle
    have hnone : ∀ c ∈ ([] : List Char).head?, excess < c.utf8Size := nofun
    have hpast := LineTable.positionAt_add text excess hnone
    have hend := LineTable.positionAt_ofList text []
    rw [List.append_nil] at hpast hend
    rw [hpast, hend]
  inLine := by
    intro number start front back hstart hline p
    obtain ⟨before, after, heq, hlength, hreturn⟩ :=
      LineTable.exists_boundary_of_lineText? hstart hline
    have hoffset : (LineTable.ofList text).offsetAt p = start + utf8Length front := by
      have hbefore : utf8Length before < UInt32.size := by
        rw [heq, utf8Length_append] at hsize
        omega
      have hboundary := LineTable.offsetAt_boundary before after (inWords_of_lt hbefore)
      rwa [if_neg hreturn, ← heq, hlength] at hboundary
    exact ⟨hoffset, congrArg _ hoffset⟩

theorem offsets_return_carriages :
    let text := "a\r\n😀\ré\r\r\n\r".toList
    utf8Length text < UInt32.size ∧ OffsetsReturn text := by
  intro text
  have hsize : utf8Length text < UInt32.size := by decide
  exact ⟨hsize, offsets_return hsize⟩

end HtmlIds
