import HtmlIds.Proofs.Text.Pieces
import HtmlIds.Proofs.Text.Place
import HtmlIds.Proofs.Text.Search

namespace HtmlIds

def linesSize (lines : List (List Char)) : Nat :=
  (lines.map (utf8Length · + 1)).foldr (· + ·) 0

@[simp] theorem linesSize_nil : linesSize [] = 0 := rfl

@[simp] theorem linesSize_cons (line : List Char) (lines : List (List Char)) :
    linesSize (line :: lines) = utf8Length line + 1 + linesSize lines := rfl

/-- The lines of a text, seen from a place in it: the lines before that of the place, the two parts
of this line, and the lines after it. -/
structure LinesAround (before after : List Char) (leading : List (List Char)) (front back : List Char)
    (others : List (List Char)) : Prop where
  lines : splitLines (before ++ after) = leading ++ (front ++ back) :: others
  ahead : splitLines after = back :: others
  size : utf8Length before = linesSize leading + utf8Length front
  place : placeAfter before = (leading.length, utf16Length front)
  suffix : front <:+ before

theorem splitLines_newline (rest : List Char) : splitLines ('\n' :: rest) = [] :: splitLines rest := by
  rw [splitLines, pieces, if_pos rfl]
  rfl

theorem splitLines_cons {c : Char} (h : c ≠ '\n') {rest first : List Char}
    {others : List (List Char)} (hrest : splitLines rest = first :: others) :
    splitLines (c :: rest) = (c :: first) :: others := by
  unfold splitLines at *
  rw [pieces, if_neg h, hrest]

theorem exists_splitLines (text : List Char) :
    ∃ first others, splitLines text = first :: others :=
  List.exists_cons_of_ne_nil (pieces_ne_nil '\n' text)

theorem length_splitLines (text : List Char) :
    (splitLines text).length = text.count '\n' + 1 := by
  induction text with
  | nil => rfl
  | cons c rest ih =>
      by_cases hc : c = '\n'
      · rw [hc, splitLines_newline, List.length_cons, ih, List.count_cons_self]
      · obtain ⟨first, others, hsplit⟩ := exists_splitLines rest
        rw [splitLines_cons hc hsplit, List.count_cons_of_ne hc, ← ih, hsplit]
        rfl

@[simp] theorem linesSize_append (leading others : List (List Char)) :
    linesSize (leading ++ others) = linesSize leading + linesSize others := by
  induction leading with
  | nil => simp
  | cons first leading ih => simp [ih, Nat.add_assoc]

theorem exists_linesAround (before after : List Char) :
    ∃ leading front back others, LinesAround before after leading front back others := by
  induction before using List.reverseRecOn generalizing after with
  | nil =>
      obtain ⟨first, others, hsplit⟩ := exists_splitLines after
      exact ⟨[], [], first, others, hsplit, hsplit, rfl, rfl, List.suffix_refl []⟩
  | append_singleton before c ih =>
      obtain ⟨leading, front, back, others, h⟩ := ih (c :: after)
      have htext : before ++ [c] ++ after = before ++ c :: after := by simp
      obtain ⟨first, rest, hafter⟩ := exists_splitLines after
      by_cases hc : c = '\n'
      · subst hc
        obtain ⟨rfl, rfl⟩ : [] = back ∧ splitLines after = others := by
          simpa [splitLines_newline] using h.ahead
        refine ⟨leading ++ [front], [], first, rest, ?_, hafter, ?_, ?_, List.nil_suffix⟩
        · rw [htext, h.lines, hafter]
          simp
        · have hnewline : '\n'.utf8Size = 1 := rfl
          rw [linesSize_append, utf8Length_append, h.size]
          simp [hnewline, Nat.add_assoc]
        · rw [placeAfter_concat, h.place]
          simp [advance]
      · obtain ⟨rfl, rfl⟩ : c :: first = back ∧ rest = others := by
          simpa [splitLines_cons hc hafter] using h.ahead
        refine ⟨leading, front ++ [c], first, rest, ?_, hafter, ?_, ?_, ?_⟩
        · rw [htext, h.lines]
          simp
        · simp [h.size, Nat.add_assoc]
        · rw [placeAfter_concat, h.place, advance, if_neg hc]
          simp
        · obtain ⟨lead, rfl⟩ := h.suffix
          exact ⟨lead, by simp⟩

theorem LinesAround.back_ne_nil {before after front back : List Char} {leading others : List (List Char)}
    (h : LinesAround before after leading front back others)
    (hreturn : before.getLast? = some '\r' → ∃ c rest, after = c :: rest ∧ c ≠ '\n')
    (hlast : front.getLast? = some '\r') : back ≠ [] := by
  obtain ⟨lead, hlead⟩ := h.suffix
  have hbefore : before.getLast? = some '\r' := by
    rw [← hlead, List.getLast?_append, hlast]
    rfl
  obtain ⟨c, rest, rfl, hc⟩ := hreturn hbefore
  obtain ⟨first, more, hrest⟩ := exists_splitLines rest
  have hahead := h.ahead
  rw [splitLines_cons hc hrest] at hahead
  rw [← (List.cons.inj hahead).1]
  exact List.cons_ne_nil c first

theorem stripReturn_cons {c : Char} {rest : List Char} (h : c = '\r' → rest ≠ []) :
    stripReturn (c :: rest) = c :: stripReturn rest := by
  rw [stripReturn]
  exact h

theorem stripReturn_append {front back : List Char} (h : front.getLast? = some '\r' → back ≠ []) :
    stripReturn (front ++ back) = front ++ stripReturn back := by
  induction front with
  | nil => rfl
  | cons c front ih =>
      rw [List.cons_append, stripReturn_cons, ih, List.cons_append]
      · intro hlast
        apply h
        cases front with
        | nil => cases hlast
        | cons => simpa using hlast
      · intro hc hnil
        obtain ⟨rfl, rfl⟩ := List.append_eq_nil_iff.1 hnil
        exact h (by rw [hc]; rfl) rfl

theorem stripReturn_concat (line : List Char) : stripReturn (line ++ ['\r']) = line := by
  rw [stripReturn_append fun _ => List.cons_ne_nil _ _]
  exact List.append_nil line

theorem stripReturn_eq_self {line : List Char} (h : line.getLast? ≠ some '\r') :
    stripReturn line = line := by
  have hstrip : stripReturn (line ++ []) = line ++ stripReturn [] :=
    stripReturn_append fun hlast => absurd hlast h
  rwa [List.append_nil, stripReturn, List.append_nil] at hstrip

theorem bytesBefore_append (front back : List Char) :
    LineTable.bytesBefore (front ++ back) (utf16Length front) = utf8Length front := by
  induction front with
  | nil => cases back <;> rfl
  | cons c front ih =>
      have hpos := utf16Width_pos c
      have hne : utf16Length (c :: front) ≠ 0 := by
        rw [utf16Length_cons]
        omega
      have hsub : utf16Length (c :: front) - utf16Width c = utf16Length front := by simp
      rw [List.cons_append, LineTable.bytesBefore, if_neg hne, hsub, ih, utf8Length_cons]

theorem getElem?_startsAfter (text : List Char) (offset i : Nat) :
    (offset :: startsAfter text offset)[i]? =
      if i < (splitLines text).length then some (offset + linesSize ((splitLines text).take i))
      else none := by
  induction text generalizing offset i with
  | nil => cases i <;> rfl
  | cons c rest ih =>
      cases i with
      | zero =>
          obtain ⟨first, others, hsplit⟩ := exists_splitLines (c :: rest)
          simp [hsplit]
      | succ i =>
          by_cases hc : c = '\n'
          · subst hc
            have hnewline : '\n'.utf8Size = 1 := rfl
            have hrest := ih (offset + 1) i
            simp [startsAfter, splitLines_newline, hnewline, hrest, Nat.add_assoc]
          · obtain ⟨first, others, hsplit⟩ := exists_splitLines rest
            have hrest := ih (offset + c.utf8Size) (i + 1)
            rw [List.getElem?_cons_succ] at hrest
            simp [startsAfter, hc, splitLines_cons hc hsplit, hrest, hsplit, Nat.add_assoc]

namespace LineTable

theorem lineStart?_ofList (text : List Char) (line : Nat) :
    (ofList text).lineStart? line =
      if line < (splitLines text).length then some (linesSize ((splitLines text).take line))
      else none := by
  simpa [lineStart?, ofList] using getElem?_startsAfter text 0 line

theorem lineStart?_append {text : List Char} {leading others : List (List Char)} {line : List Char}
    (h : splitLines text = leading ++ line :: others) :
    (ofList text).lineStart? leading.length = some (linesSize leading) := by
  simp [lineStart?_ofList, h]

theorem lineText?_append {text : List Char} {leading others : List (List Char)} {line : List Char}
    {number : UInt32} (h : splitLines text = leading ++ line :: others)
    (hnumber : leading.length = number.toNat) :
    (ofList text).lineText? number = some (stripReturn line) := by
  have hlines : (ofList text).lines = leading ++ line :: others := h
  rw [lineText?, hlines, ← hnumber]
  simp

theorem lt_lineCount {table : LineTable} {number : UInt32} {line : List Char}
    (h : table.lineText? number = some line) : number.toNat < table.lineCount := by
  obtain ⟨_, hget, -⟩ := Option.map_eq_some_iff.1 h
  exact (List.getElem?_eq_some_iff.1 hget).1

theorem lt_lineStart? {text line : List Char} {leading others : List (List Char)} {i start : Nat}
    (h : splitLines text = leading ++ line :: others) (hlt : leading.length < i)
    (hstart : (ofList text).lineStart? i = some start) :
    linesSize leading + utf8Length line < start := by
  obtain ⟨n, rfl⟩ := Nat.exists_eq_add_of_lt hlt
  rw [lineStart?_ofList] at hstart
  split at hstart
  · obtain rfl := Option.some.inj hstart
    rw [h, Nat.add_assoc, List.take_length_add_append, linesSize_append, List.take_succ_cons,
      linesSize_cons]
    omega
  · cases hstart

theorem exists_splitLines_of_lt {text : List Char} {i : Nat} (h : i < (splitLines text).length) :
    ∃ leading line others, splitLines text = leading ++ line :: others ∧ leading.length = i := by
  refine ⟨(splitLines text).take i, (splitLines text)[i], (splitLines text).drop (i + 1), ?_, ?_⟩
  · exact (List.take_append_drop i _).symm.trans (congrArg _ (List.drop_eq_getElem_cons h))
  · exact List.length_take_of_le (Nat.le_of_lt h)

theorem exists_of_lineStart? {text : List Char} {i start : Nat}
    (h : (ofList text).lineStart? i = some start) : ∃ leading line others,
      splitLines text = leading ++ line :: others ∧ leading.length = i ∧ linesSize leading = start := by
  have hlt : i < (splitLines text).length := by
    rw [lineStart?_ofList] at h
    exact (Option.ite_none_right_eq_some.1 h).1
  obtain ⟨leading, line, others, hlines, rfl⟩ := exists_splitLines_of_lt hlt
  exact ⟨leading, line, others, hlines, rfl,
    Option.some.inj ((lineStart?_append hlines).symm.trans h)⟩

theorem exists_of_lineText? {text line : List Char} {number : UInt32}
    (h : (ofList text).lineText? number = some line) : ∃ leading source others,
      splitLines text = leading ++ source :: others ∧ leading.length = number.toNat ∧
        stripReturn source = line := by
  obtain ⟨leading, source, others, hlines, hnumber⟩ := exists_splitLines_of_lt (lt_lineCount h)
  exact ⟨leading, source, others, hlines, hnumber,
    Option.some.inj ((lineText?_append hlines hnumber).symm.trans h)⟩

theorem ascending_starts (text : List Char) : Ascending (ofList text).starts := by
  intro i j a b hlt ha hb
  obtain ⟨leading, line, others, hlines, rfl, rfl⟩ := exists_of_lineStart? ha
  exact Nat.lt_of_le_of_lt (Nat.le_add_right ..) (lt_lineStart? hlines hlt hb)

theorem lineAt_eq {table : LineTable} (h : Ascending table.starts) {line start offset : Nat}
    (hstart : table.lineStart? line = some start) (hle : start ≤ offset)
    (hnext : ∀ i number, line < i → table.lineStart? i = some number → offset < number) :
    table.lineAt offset = line := by
  have hlocates := locates_search h offset
  unfold lineAt
  cases hsearch : search table.starts offset with
  | ok place =>
      rw [hsearch] at hlocates
      rcases Nat.lt_trichotomy place line with hlt | heq | hgt
      · exact absurd (h place line offset start hlt hlocates hstart) (Nat.not_lt_of_le hle)
      · exact heq
      · exact absurd (hnext place offset hgt hlocates) (Nat.lt_irrefl offset)
  | error place =>
      rw [hsearch] at hlocates
      obtain ⟨hsize, hbelow, habove⟩ := hlocates
      have hlt : line < place :=
        Nat.lt_of_not_le fun hplace => Nat.not_lt_of_le hle (habove line start hplace hstart)
      refine Nat.le_antisymm (Nat.le_of_not_lt fun hgt => ?_) (Nat.le_sub_one_of_lt hlt)
      have hget := Array.getElem?_eq_getElem (show place - 1 < table.starts.size by omega)
      exact Nat.lt_asymm (hbelow _ _ (by omega) hget) (hnext _ _ hgt hget)

theorem lineAt_linesAround {before after front back : List Char} {leading others : List (List Char)}
    (h : LinesAround before after leading front back others) :
    (ofList (before ++ after)).lineAt (utf8Length before) = leading.length := by
  refine lineAt_eq (ascending_starts _) (lineStart?_append h.lines)
    (h.size ▸ Nat.le_add_right ..) fun i number hlt hnumber => ?_
  have hstart := lt_lineStart? h.lines hlt hnumber
  rw [utf8Length_append] at hstart
  rw [h.size]
  omega

theorem positionAt_add (before : List Char) {after : List Char} (excess : Nat)
    (h : ∀ c ∈ after.head?, excess < c.utf8Size) :
    (ofList (before ++ after)).positionAt (utf8Length before + excess) =
      toPosition (placeAfter before) := by
  obtain ⟨leading, front, back, others, hlines⟩ := exists_linesAround before after
  have htake : takeBytes (ofList (before ++ after)).text (utf8Length before + excess) = before :=
    takeBytes_append before h
  have hstart : (ofList (before ++ after)).starts.getD leading.length 0 = linesSize leading := by
    have hget : (ofList (before ++ after)).starts[leading.length]? = some (linesSize leading) :=
      lineStart?_append hlines.lines
    rw [Array.getD_eq_getD_getElem?, hget, Option.getD_some]
  have hfront : dropBytes before (linesSize leading) = front := by
    obtain ⟨lead, hlead⟩ := hlines.suffix
    have hsize := hlines.size
    rw [← hlead, utf8Length_append] at hsize
    rw [← hlead, show linesSize leading = utf8Length lead by omega, dropBytes_append]
  simp only [positionAt, htake, lineAt_linesAround hlines, hstart, hfront]
  rw [hlines.place]
  rfl

theorem positionAt_ofList (before after : List Char) :
    (ofList (before ++ after)).positionAt (utf8Length before) = toPosition (placeAfter before) :=
  positionAt_add before 0 fun c _ => c.utf8Size_pos

theorem positionAt_lt {text front rest front' rest' : List Char}
    (hsize : utf8Length text < UInt32.size) (h : text = front ++ rest) (h' : text = front' ++ rest')
    (hlt : utf8Length front < utf8Length front') :
    (ofList text).positionAt (utf8Length front) < (ofList text).positionAt (utf8Length front') := by
  obtain ⟨back, rfl⟩ : ∃ back, front' = front ++ back := by
    rcases List.append_eq_append_iff.1 (h.symm.trans h') with ⟨back, heq, -⟩ | ⟨back, heq, -⟩
    · exact ⟨back, heq⟩
    · rw [heq, utf8Length_append] at hlt
      omega
  have hback : back ≠ [] := by
    rintro rfl
    rw [List.append_nil] at hlt
    exact Nat.lt_irrefl _ hlt
  rw [h', positionAt_ofList, ← h', h, positionAt_ofList]
  rw [h', utf8Length_append] at hsize
  exact toPosition_placeAfter_lt (by omega) hback

theorem offsetAt_append {text line : List Char} {leading others : List (List Char)} {p : Position}
    (h : splitLines text = leading ++ line :: others) (hnumber : leading.length = p.line.toNat) :
    (ofList text).offsetAt p =
      linesSize leading + bytesBefore (stripReturn line) p.character.toNat := by
  rw [offsetAt, ← hnumber, lineStart?_append h, lineText?_append h hnumber]

theorem offsetAt_of_lineCount_le {text : List Char} {p : Position}
    (h : (ofList text).lineCount ≤ p.line.toNat) : (ofList text).offsetAt p = utf8Length text := by
  have hnone : (ofList text).lineStart? p.line.toNat = none := by
    rw [lineStart?_ofList]
    exact if_neg (Nat.not_lt_of_le h)
  rw [offsetAt, hnone]
  rfl

theorem offsetAt_linesAround {before after front back : List Char} {leading others : List (List Char)}
    (h : LinesAround before after leading front back others) (hwords : InWords before) :
    (ofList (before ++ after)).offsetAt (toPosition (placeAfter before)) =
      linesSize leading + bytesBefore (stripReturn (front ++ back)) (utf16Length front) := by
  obtain ⟨hline, hcolumn⟩ := toNat_placeAfter hwords
  have hplace := h.place
  rw [congrArg Prod.fst hplace] at hline
  rw [congrArg Prod.snd hplace] at hcolumn
  rw [offsetAt_append h.lines hline.symm, hcolumn]

theorem offsetAt_toPosition {before after : List Char} (hwords : InWords before)
    (hreturn : before.getLast? = some '\r' → ∃ c rest, after = c :: rest ∧ c ≠ '\n') :
    (ofList (before ++ after)).offsetAt (toPosition (placeAfter before)) = utf8Length before := by
  obtain ⟨leading, front, back, others, h⟩ := exists_linesAround before after
  rw [offsetAt_linesAround h hwords, stripReturn_append (h.back_ne_nil hreturn), bytesBefore_append,
    h.size]

theorem exists_lineText? {table : LineTable} {p : Position}
    (h : table.offsetAt p < utf8Length table.text) : ∃ line, table.lineText? p.line = some line := by
  cases hline : table.lineText? p.line with
  | some line => exact ⟨line, rfl⟩
  | none =>
      rw [offsetAt, hline] at h
      split at h
      · next hnone => cases hnone
      · exact absurd h (Nat.lt_irrefl _)

end LineTable

end HtmlIds
