import HtmlIds.Proofs.Text.RoundTrip

namespace HtmlIds

def IsSlice (text part : List Char) (start stop : Nat) : Prop :=
  ∃ before after, text = before ++ part ++ after ∧ utf8Length before = start ∧
    utf8Length (before ++ part) = stop

/-- What is taken away from the end of a line, where only the last one has no line feed. One return
is taken as well, so a line that still ends in a return has lost another. -/
inductive IsEnding (last : Prop) (line : List Char) : List Char → Prop
  | feed : ¬last → line.getLast? ≠ some '\r' → IsEnding last line ['\n']
  | returnFeed : ¬last → IsEnding last line ['\r', '\n']
  | nothing : last → line.getLast? ≠ some '\r' → IsEnding last line []
  | onlyReturn : last → IsEnding last line ['\r']

def LineTable.shownLines (table : LineTable) : List (List Char) :=
  table.lines.map stripReturn

structure LinesPartition (text : List Char) : Prop where
  count : (LineTable.ofList text).lineCount = text.count '\n' + 1
  started : ∀ n, ((LineTable.ofList text).lineStart? n).isSome ↔
    n < (LineTable.ofList text).lineCount
  first : (LineTable.ofList text).lineStart? 0 = some 0
  ascending : ∀ n n' start start', n < n' → (LineTable.ofList text).lineStart? n = some start →
    (LineTable.ofList text).lineStart? n' = some start' → start < start'
  boundary : ∀ n start, (LineTable.ofList text).lineStart? n = some start →
    ∃ before, before <+: text ∧ utf8Length before = start ∧ (0 < n → before.getLast? = some '\n')
  shown : ∀ number, (LineTable.ofList text).lineText? number =
    (LineTable.ofList text).shownLines[number.toNat]?
  numbered : ∀ number, ((LineTable.ofList text).lineText? number).isSome ↔
    number.toNat < (LineTable.ofList text).lineCount
  plain : ∀ line ∈ (LineTable.ofList text).shownLines, '\n' ∉ line
  whole : ∃ endings : List (List Char), endings.length = (LineTable.ofList text).lineCount ∧
    (List.zipWith (· ++ ·) (LineTable.ofList text).shownLines endings).flatten = text ∧
    ∀ n start line ending, (LineTable.ofList text).lineStart? n = some start →
      (LineTable.ofList text).shownLines[n]? = some line → endings[n]? = some ending →
        IsEnding (n + 1 = (LineTable.ofList text).lineCount) line ending ∧
        IsSlice text (line ++ ending) start
          (((LineTable.ofList text).lineStart? (n + 1)).getD (utf8Length text))

def returnOf (line : List Char) : List Char :=
  if line.getLast? = some '\r' then ['\r'] else []

def lineEndings : List (List Char) → List (List Char)
  | [] => []
  | line :: rest =>
    match rest with
    | [] => [returnOf line]
    | _ :: _ => (returnOf line ++ ['\n']) :: lineEndings rest

theorem stripReturn_append_returnOf (line : List Char) : stripReturn line ++ returnOf line = line := by
  rw [returnOf]
  split
  · next hlast =>
      obtain ⟨front, rfl⟩ := List.getLast?_eq_some_iff.1 hlast
      rw [stripReturn_concat]
  · next hlast => rw [stripReturn_eq_self hlast, List.append_nil]

theorem lineEndings_cons (line : List Char) {rest : List (List Char)} (h : rest ≠ []) :
    lineEndings (line :: rest) = (returnOf line ++ ['\n']) :: lineEndings rest := by
  cases rest with
  | nil => exact absurd rfl h
  | cons next others => rfl

theorem length_lineEndings (lines : List (List Char)) : (lineEndings lines).length = lines.length := by
  induction lines with
  | nil => rfl
  | cons line rest ih =>
      cases rest with
      | nil => rfl
      | cons next others =>
          rw [lineEndings_cons line (List.cons_ne_nil next others), List.length_cons, ih]
          rfl

theorem getElem?_lineEndings (leading others : List (List Char)) (line : List Char) :
    (lineEndings (leading ++ line :: others))[leading.length]? =
      some (returnOf line ++ if others = [] then [] else ['\n']) := by
  induction leading with
  | nil => cases others <;> simp [lineEndings]
  | cons first leading ih =>
      have hne := List.append_ne_nil_of_right_ne_nil leading (List.cons_ne_nil line others)
      rw [List.cons_append, lineEndings_cons first hne, List.length_cons, List.getElem?_cons_succ, ih]

theorem flatten_lineEndings (lines : List (List Char)) :
    (List.zipWith (· ++ ·) (lines.map stripReturn) (lineEndings lines)).flatten =
      joinPieces '\n' lines := by
  induction lines with
  | nil => rfl
  | cons line rest ih =>
      cases rest with
      | nil => simp [lineEndings, joinPieces, stripReturn_append_returnOf]
      | cons next others =>
          have hne := List.cons_ne_nil next others
          rw [List.map_cons, lineEndings_cons line hne, List.zipWith_cons_cons, List.flatten_cons, ih,
            joinPieces_cons line hne, ← List.append_assoc, stripReturn_append_returnOf,
            List.append_assoc, List.singleton_append]

theorem isEnding_returnOf (line : List Char) {last : Prop} {others : List (List Char)}
    (h : last ↔ others = []) :
    IsEnding last (stripReturn line) (returnOf line ++ if others = [] then [] else ['\n']) := by
  by_cases hlast : line.getLast? = some '\r'
  · have hreturn : returnOf line = ['\r'] := if_pos hlast
    by_cases hothers : others = []
    · rw [hreturn, if_pos hothers]
      exact .onlyReturn (h.2 hothers)
    · rw [hreturn, if_neg hothers]
      exact .returnFeed (mt h.1 hothers)
  · have hnone : returnOf line = [] := if_neg hlast
    by_cases hothers : others = []
    · rw [hnone, if_pos hothers, stripReturn_eq_self hlast]
      exact .nothing (h.2 hothers) hlast
    · rw [hnone, if_neg hothers, stripReturn_eq_self hlast]
      exact .feed (mt h.1 hothers) hlast

section

variable {text line : List Char} {leading others : List (List Char)}

theorem utf8Length_flatMap_feed (lines : List (List Char)) :
    utf8Length (lines.flatMap (· ++ ['\n'])) = linesSize lines := by
  induction lines with
  | nil => rfl
  | cons line rest ih =>
      have hfeed : utf8Length ['\n'] = 1 := rfl
      rw [List.flatMap_cons, utf8Length_append, utf8Length_append, ih, linesSize_cons, hfeed]

theorem getLast?_flatMap_feed {lines : List (List Char)} (h : lines ≠ []) :
    (lines.flatMap (· ++ ['\n'])).getLast? = some '\n' := by
  obtain ⟨front, line, rfl⟩ := List.eq_nil_or_concat lines |>.resolve_left h
  simp

theorem eq_append_of_splitLines (h : splitLines text = leading ++ line :: others) :
    text = leading.flatMap (· ++ ['\n']) ++ (line ++ if others = [] then [] else ['\n']) ++
      joinPieces '\n' others := by
  have htext : joinPieces '\n' (splitLines text) = text := joinPieces_pieces '\n' text
  rw [h, joinPieces_leading leading (List.cons_ne_nil line others)] at htext
  rw [← htext]
  by_cases hothers : others = []
  · simp [hothers, joinPieces]
  · rw [joinPieces_cons line hothers, if_neg hothers]
    simp

theorem getElem?_shownLines (h : splitLines text = leading ++ line :: others) :
    (LineTable.ofList text).shownLines[leading.length]? = some (stripReturn line) := by
  have hlines : (LineTable.ofList text).lines = leading ++ line :: others := h
  rw [LineTable.shownLines, hlines]
  simp

theorem add_one_eq_lineCount_iff (h : splitLines text = leading ++ line :: others) :
    leading.length + 1 = (LineTable.ofList text).lineCount ↔ others = [] := by
  have hlines : (LineTable.ofList text).lines = leading ++ line :: others := h
  rw [LineTable.lineCount, hlines]
  simp

theorem isSlice_of_splitLines (h : splitLines text = leading ++ line :: others) :
    IsSlice text (line ++ if others = [] then [] else ['\n']) (linesSize leading)
      (((LineTable.ofList text).lineStart? (leading.length + 1)).getD (utf8Length text)) := by
  have htext := eq_append_of_splitLines h
  refine ⟨_, _, htext, utf8Length_flatMap_feed leading, ?_⟩
  by_cases hothers : others = []
  · have hnone : (LineTable.ofList text).lineStart? (leading.length + 1) = none := by
      simp [LineTable.lineStart?_ofList, h, hothers]
    rw [hnone, Option.getD_none, congrArg utf8Length htext, hothers]
    simp [joinPieces]
  · obtain ⟨next, rest, rfl⟩ := List.exists_cons_of_ne_nil hothers
    have hlines : splitLines text = (leading ++ [line]) ++ next :: rest := by simp [h]
    have hnext := LineTable.lineStart?_append hlines
    rw [List.length_append, List.length_singleton] at hnext
    have hfeed : '\n'.utf8Size = 1 := rfl
    rw [hnext, Option.getD_some, utf8Length_append, utf8Length_flatMap_feed, linesSize_append,
      if_neg hothers]
    simp [hfeed]

end

theorem exists_before_lineStart? {text : List Char} {n start : Nat}
    (h : (LineTable.ofList text).lineStart? n = some start) :
    ∃ before, before <+: text ∧ utf8Length before = start ∧ (0 < n → before.getLast? = some '\n') := by
  obtain ⟨leading, line, others, hlines, rfl, rfl⟩ := LineTable.exists_of_lineStart? h
  refine ⟨leading.flatMap (· ++ ['\n']), ?_, utf8Length_flatMap_feed leading, fun hpos => ?_⟩
  · rw [eq_append_of_splitLines hlines, List.append_assoc]
    exact List.prefix_append _ _
  · exact getLast?_flatMap_feed (List.length_pos_iff.1 hpos)

theorem lines_partition (text : List Char) : LinesPartition text where
  count := length_splitLines text
  started := by
    intro n
    rw [LineTable.lineStart?_ofList]
    change _ ↔ n < (splitLines text).length
    split <;> simp [*]
  first := by
    obtain ⟨first, others, hlines⟩ := exists_splitLines text
    have hleading : splitLines text = [] ++ first :: others := hlines
    exact LineTable.lineStart?_append hleading
  ascending := fun n n' start start' => LineTable.ascending_starts text n n' start start'
  boundary := fun _ _ => exists_before_lineStart?
  shown := fun number => List.getElem?_map.symm
  numbered := by
    intro number
    simp [LineTable.lineText?, LineTable.lineCount]
  plain := by
    intro line hline
    obtain ⟨source, hsource, rfl⟩ := List.mem_map.1 hline
    obtain ⟨leading, others, hlines⟩ := List.append_of_mem hsource
    have hnewline := (exists_of_splitLines hlines).1
    rw [← stripReturn_append_returnOf source] at hnewline
    exact fun hmem => hnewline (List.mem_append_left _ hmem)
  whole := by
    refine ⟨lineEndings (splitLines text), length_lineEndings _, ?_, ?_⟩
    · rw [LineTable.shownLines]
      exact (flatten_lineEndings (splitLines text)).trans (joinPieces_pieces '\n' text)
    · intro n start line ending hstart hline hending
      obtain ⟨leading, source, others, hlines, rfl, rfl⟩ := LineTable.exists_of_lineStart? hstart
      rw [hlines, getElem?_lineEndings] at hending
      obtain rfl := Option.some.inj hending
      obtain rfl := Option.some.inj ((getElem?_shownLines hlines).symm.trans hline)
      refine ⟨isEnding_returnOf source (add_one_eq_lineCount_iff hlines), ?_⟩
      rw [← List.append_assoc, stripReturn_append_returnOf]
      exact isSlice_of_splitLines hlines

example : (LineTable.ofText "a\r\n\r\r\nb\r").shownLines = [['a'], ['\r'], ['b']] := by decide

end HtmlIds
