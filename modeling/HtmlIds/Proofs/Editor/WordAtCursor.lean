import HtmlIds.Proofs.Editor.Cursor
import HtmlIds.Proofs.Editor.CursorCut
import HtmlIds.Proofs.Text.LineTable
import HtmlIds.Proofs.Text.MaximalRun

namespace HtmlIds

/-- What a longest run of word characters leaves, if anything, when the digits at its beginning are
taken away; `before` is all that stands in front of that. -/
structure IsToken (line before token : List Char) : Prop where
  ne_nil : token ≠ []
  run : ∃ lead run after, MaximalRun isWordChar line lead run after ∧
    before = lead ++ run.takeWhile Char.isDigit ∧ token = run.dropWhile Char.isDigit

def Touches (before token : List Char) (cursor : Nat) : Prop :=
  utf8Length before ≤ cursor ∧ cursor ≤ utf8Length (before ++ token)

structure IsWord (line before token : List Char) (word : Word) : Prop where
  text : word.text = String.ofList token
  start : word.start = (utf16Length before).toUInt32
  stop : word.stop = (utf16Length (before ++ token)).toUInt32
  exact : utf16Length line < UInt32.size →
    word.start.toNat = utf16Length before ∧ word.stop.toNat = utf16Length (before ++ token)

structure WordsTouch (line : List Char) (column : UInt32) : Prop where
  cursor : ∃ front, front <+: stripReturn line ∧ columnOffset line column = utf8Length front ∧
    (column.toNat ≤ utf16Length front ∨ front = stripReturn line) ∧
    ∀ front', front' <+: stripReturn line → column.toNat ≤ utf16Length front' → front <+: front'
  one : ∀ before token before' token', IsToken line before token → IsToken line before' token' →
    Touches before token (columnOffset line column) →
    Touches before' token' (columnOffset line column) → before = before' ∧ token = token'
  word : ∀ word, wordAt? line column = some word ↔ ∃ before token, IsToken line before token ∧
    Touches before token (columnOffset line column) ∧ IsWord line before token word

def Settled (before : List Char) : Prop :=
  ∀ c ∈ before.rtakeWhile isWordChar, c.isDigit = true

theorem Settled.isDigit {front part : List Char} {c : Char} (h : Settled (front ++ c :: part))
    (hword : ∀ a ∈ c :: part, isWordChar a = true) : c.isDigit = true := by
  rw [Settled, rtakeWhile_append_of_pos front hword] at h
  exact h c (List.mem_append_right _ List.mem_cons_self)

theorem isWordStart_iff {c : Char} :
    isWordStart c = true ↔ isWordChar c = true ∧ c.isDigit = false := by
  simp [isWordStart]

theorem isWordChar_of_isDigit {c : Char} (h : c.isDigit = true) : isWordChar c = true := by
  simp [isWordChar, Char.isAlphanum, h]

variable {line before before' token token' : List Char}

theorem isToken_iff : IsToken line before token ↔ ∃ after, line = before ++ token ++ after ∧
    Settled before ∧ (∃ first rest, token = first :: rest ∧ first.isDigit = false) ∧
    (∀ c ∈ token, isWordChar c = true) ∧ ∀ c ∈ after.head?, isWordChar c = false := by
  constructor
  · rintro ⟨hne, lead, run, after, hrun, rfl, rfl⟩
    obtain ⟨first, rest, htoken⟩ := List.exists_cons_of_ne_nil hne
    have hdigits : ∀ c ∈ run.takeWhile Char.isDigit, c.isDigit = true :=
      fun _ => List.mem_takeWhile_imp
    refine ⟨after, ?_, ?_, ⟨first, rest, htoken, ?_⟩, fun c hc => ?_, hrun.right⟩
    · rw [List.append_assoc lead, List.takeWhile_append_dropWhile]
      exact hrun.eq_append
    · rw [Settled, rtakeWhile_append_of_pos lead fun c hc => isWordChar_of_isDigit (hdigits c hc),
        rtakeWhile_eq_nil hrun.left]
      exact hdigits
    · have hhead : first ∈ (run.dropWhile Char.isDigit).head? := by simp [htoken]
      exact of_mem_head?_dropWhile hhead
    · exact hrun.holds c ((List.dropWhile_suffix Char.isDigit).mem hc)
  · rintro ⟨after, rfl, hsettled, ⟨first, rest, rfl, hdigit⟩, hword, hafter⟩
    have hhead : ∀ c ∈ (first :: rest).head?, c.isDigit = false := by simpa using hdigit
    refine ⟨List.cons_ne_nil first rest, _, _, after, maximalRun_append before hword hafter, ?_, ?_⟩
    · rw [takeWhile_append_of_head hsettled hhead, List.rdropWhile_append_rtakeWhile]
    · rw [dropWhile_append_of_head hsettled hhead]

theorem IsToken.exists_after (h : IsToken line before token) :
    ∃ after, line = before ++ token ++ after := by
  obtain ⟨after, hline, -⟩ := isToken_iff.1 h
  exact ⟨after, hline⟩

theorem IsToken.eq_run (h : IsToken line before token) :
    token = (line.drop before.length).takeWhile isWordChar := by
  obtain ⟨after, rfl, -, -, hword, hafter⟩ := isToken_iff.1 h
  rw [List.append_assoc, List.drop_left, takeWhile_append_of_head hword hafter]

theorem IsToken.length_lt (h : IsToken line before token) (h' : IsToken line before' token')
    (hlt : before.length < before'.length) : (before ++ token).length < before'.length := by
  refine Nat.lt_of_not_le fun hle => ?_
  obtain ⟨after, hline, -, ⟨first, rest, rfl, hdigit⟩, hword, -⟩ := isToken_iff.1 h
  obtain ⟨after', hline', hsettled, -⟩ := isToken_iff.1 h'
  have hprefix : before ++ first :: rest <+: line := ⟨after, hline.symm⟩
  have hprefix' : before' <+: line := ⟨token' ++ after', by rw [hline', List.append_assoc]⟩
  -- what is between the two beginnings belongs to the first token and so to the run of the second
  obtain ⟨part, rfl⟩ : before <+: before' := List.prefix_of_prefix_length_le
    ((List.prefix_append before _).trans hprefix) hprefix' (Nat.le_of_lt hlt)
  have hpart : part <+: first :: rest := (List.prefix_append_right_inj before).1
    (List.prefix_of_prefix_length_le hprefix' hprefix hle)
  cases part with
  | nil => simp at hlt
  | cons c part =>
      have hfirst := hsettled.isDigit fun a ha => hword a (hpart.mem ha)
      obtain ⟨rfl, -⟩ := List.cons_prefix_cons.1 hpart
      exact Bool.false_ne_true (hdigit.symm.trans hfirst)

theorem IsToken.eq_of_length_eq (h : IsToken line before token) (h' : IsToken line before' token')
    (heq : before.length = before'.length) : before = before' ∧ token = token' := by
  obtain ⟨after, hline⟩ := h.exists_after
  obtain ⟨after', hline'⟩ := h'.exists_after
  rw [List.append_assoc] at hline hline'
  refine ⟨(List.append_inj (hline.symm.trans hline') heq).1, ?_⟩
  rw [h.eq_run, h'.eq_run, heq]

theorem IsToken.utf8Length_lt (h : IsToken line before token) (h' : IsToken line before' token')
    (hlt : before.length < before'.length) : utf8Length (before ++ token) < utf8Length before' := by
  have hlength := h.length_lt h' hlt
  obtain ⟨after, hline⟩ := h.exists_after
  obtain ⟨after', hline'⟩ := h'.exists_after
  refine Nat.lt_of_not_le fun hle => ?_
  have hprefix := prefix_of_utf8Length_le ⟨token' ++ after', by rw [hline', List.append_assoc]⟩
    ⟨after, hline.symm⟩ hle
  exact Nat.not_le_of_lt hlength hprefix.length_le

theorem IsToken.unique {cursor : Nat} (h : IsToken line before token)
    (h' : IsToken line before' token') (htouches : Touches before token cursor)
    (htouches' : Touches before' token' cursor) : before = before' ∧ token = token' := by
  obtain ⟨hstart, hstop⟩ := htouches
  obtain ⟨hstart', hstop'⟩ := htouches'
  rcases Nat.lt_trichotomy before.length before'.length with hlt | heq | hgt
  · have hbytes := h.utf8Length_lt h' hlt
    omega
  · exact h.eq_of_length_eq h' heq
  · have hbytes := h'.utf8Length_lt h hgt
    omega

theorem isToken_start {c : Char} {rest : List Char} (h : isWordStart c = true)
    (hsettled : Settled before) :
    IsToken (before ++ c :: rest) before (c :: rest.takeWhile isWordChar) := by
  obtain ⟨hword, hdigit⟩ := isWordStart_iff.1 h
  refine isToken_iff.2 ⟨rest.dropWhile isWordChar, by simp, hsettled, ⟨c, _, rfl, hdigit⟩,
    List.forall_mem_cons.2 ⟨hword, fun _ => List.mem_takeWhile_imp⟩,
    fun _ => of_mem_head?_dropWhile⟩

theorem IsToken.isWordStart {c : Char} {rest : List Char} (h : IsToken line before token)
    (hline : line = before' ++ c :: rest) (hlength : before.length = before'.length) :
    isWordStart c = true := by
  obtain ⟨after, rfl, -, ⟨first, more, rfl, hdigit⟩, hword, -⟩ := isToken_iff.1 h
  rw [List.append_assoc] at hline
  obtain ⟨rfl, -⟩ := List.cons.inj (List.append_inj hline hlength).2
  exact isWordStart_iff.2 ⟨hword first List.mem_cons_self, hdigit⟩

theorem scanWords_skip (list : List Char) (offset skip : Nat) : scanWords list offset skip =
    scanWords (list.drop skip) (offset + utf8Length (list.take skip)) 0 := by
  induction skip generalizing list offset with
  | zero => simp
  | succ skip ih =>
      cases list with
      | nil => simp [scanWords]
      | cons c rest => simp [scanWords, ih, Nat.add_assoc]

theorem scanWords_other {c : Char} (h : isWordStart c = false) (before rest : List Char) :
    scanWords (c :: rest) (utf8Length before) 0 =
      scanWords rest (utf8Length (before ++ [c])) 0 := by
  simp [scanWords, h]

theorem scanWords_start {c : Char} (h : isWordStart c = true) (before rest : List Char) :
    let word := c :: rest.takeWhile isWordChar
    scanWords (c :: rest) (utf8Length before) 0 =
      (word, ⟨utf8Length before, utf8Length (before ++ word)⟩) ::
        scanWords (rest.dropWhile isWordChar) (utf8Length (before ++ word)) 0 := by
  have hlength : (c :: rest.takeWhile isWordChar).length - 1 =
      (rest.takeWhile isWordChar).length := rfl
  simp only [scanWords, h, if_true, hlength]
  rw [scanWords_skip, take_run_length, drop_run_length, utf8Length_append, utf8Length_cons,
    Nat.add_assoc]

theorem Settled.concat {c : Char} (h : isWordChar c = true → Settled before)
    (hc : isWordStart c = false) : Settled (before ++ [c]) := by
  rw [Settled, List.rtakeWhile_concat]
  split
  · next hword =>
      refine List.forall_mem_append.2 ⟨h hword, List.forall_mem_singleton.2 ?_⟩
      simpa [isWordStart, hword] using hc
  · nofun

theorem mem_scanWords_iff {rest word : List Char} {span : Span}
    (h : ∀ c ∈ rest.head?, isWordChar c = true → Settled before) :
    (word, span) ∈ scanWords rest (utf8Length before) 0 ↔
      ∃ begun, before.length ≤ begun.length ∧ IsToken (before ++ rest) begun word ∧
        span = ⟨utf8Length begun, utf8Length (begun ++ word)⟩ := by
  -- the scan is behind a token when it goes on, so the induction is on what is left of the line
  induction hn : rest.length using Nat.strongRecOn generalizing before rest with
  | ind n ih =>
    cases rest with
    | nil =>
        rw [scanWords]
        refine iff_of_false List.not_mem_nil ?_
        rintro ⟨begun, hle, htoken, -⟩
        obtain ⟨after, hline⟩ := htoken.exists_after
        have hlength := congrArg List.length hline
        have hpos := List.length_pos_of_ne_nil htoken.ne_nil
        simp only [List.length_append, List.length_nil] at hlength
        omega
    | cons c rest =>
        cases hc : isWordStart c with
        | false =>
            have hline : before ++ c :: rest = before ++ [c] ++ rest := by simp
            have hsettled : ∀ c' ∈ rest.head?, isWordChar c' = true → Settled (before ++ [c]) :=
              fun _ _ _ => .concat (h c rfl) hc
            have hnext := ih rest.length (by simp [← hn]) hsettled rfl
            rw [scanWords_other hc, hline, hnext]
            refine exists_congr fun begun => and_congr_left fun hbegun => ?_
            rw [List.length_append, List.length_singleton, Nat.succ_le_iff, Nat.lt_iff_le_and_ne]
            refine and_iff_left fun heq => ?_
            exact Bool.false_ne_true (hc.symm.trans (hbegun.1.isWordStart hline.symm heq.symm))
        | true =>
            let first := c :: rest.takeWhile isWordChar
            have hline : before ++ c :: rest = before ++ first ++ rest.dropWhile isWordChar := by
              simp [first]
            have hfirst : IsToken (before ++ c :: rest) before first :=
              isToken_start hc (h c rfl (isWordStart_iff.1 hc).1)
            have hshorter := (List.dropWhile_suffix (l := rest) isWordChar).length_le
            have hstop : ∀ c ∈ (rest.dropWhile isWordChar).head?,
                isWordChar c = true → Settled (before ++ first) := fun _ hmem hword =>
              absurd ((of_mem_head?_dropWhile hmem).symm.trans hword) Bool.false_ne_true
            have hnext := ih (rest.dropWhile isWordChar).length (by simp [← hn]; omega) hstop rfl
            rw [scanWords_start hc, List.mem_cons, hnext, ← hline]
            constructor
            · rintro (heq | ⟨begun, hle, htoken, rfl⟩)
              · obtain ⟨rfl, rfl⟩ := Prod.mk.inj heq
                exact ⟨before, Nat.le_refl _, hfirst, rfl⟩
              · rw [List.length_append] at hle
                exact ⟨begun, by omega, htoken, rfl⟩
            · rintro ⟨begun, hle, htoken, rfl⟩
              rcases Nat.lt_or_eq_of_le hle with hlt | heq
              · exact .inr ⟨begun, Nat.le_of_lt (hfirst.length_lt htoken hlt), htoken, rfl⟩
              · obtain ⟨rfl, rfl⟩ := hfirst.eq_of_length_eq htoken heq
                exact .inl rfl

theorem mem_words_iff {word : List Char} {span : Span} : (word, span) ∈ scanWords line 0 0 ↔
    ∃ before, IsToken line before word ∧
      span = ⟨utf8Length before, utf8Length (before ++ word)⟩ := by
  have hsettled : ∀ c ∈ line.head?, isWordChar c = true → Settled [] := fun _ _ _ => nofun
  simpa using mem_scanWords_iff hsettled

theorem columns_eq (h : '\n' ∉ line) (hfront : before <+: line) :
    ((LineTable.ofList line).positionAt (utf8Length before)).character =
      (utf16Length before).toUInt32 := by
  obtain ⟨after, rfl⟩ := hfront
  have hbefore : '\n' ∉ before := fun hmem => h (List.mem_append_left after hmem)
  have hplace := placeAfter_append_of_not_mem [] hbefore
  rw [List.nil_append] at hplace
  rw [LineTable.positionAt_ofList, hplace]
  exact congrArg Nat.toUInt32 (Nat.zero_add _)

theorem IsWord.of_eq {word : Word} (h : IsToken line before token)
    (htext : word.text = String.ofList token) (hstart : word.start = (utf16Length before).toUInt32)
    (hstop : word.stop = (utf16Length (before ++ token)).toUInt32) :
    IsWord line before token word where
  text := htext
  start := hstart
  stop := hstop
  exact := by
    intro hsize
    obtain ⟨after, rfl⟩ := h.exists_after
    rw [utf16Length_append] at hsize
    have hlength := utf16Length_append before token
    rw [hstart, hstop]
    exact ⟨toNat_toUInt32 (by omega), toNat_toUInt32 (by omega)⟩

theorem find?_words_eq_some_iff {cursor : Nat} {word : List Char} {span : Span} :
    ((scanWords line 0 0).find? fun (_, span) => span.start ≤ cursor && cursor ≤ span.stop) =
        some (word, span) ↔ ∃ before, IsToken line before word ∧ Touches before word cursor ∧
      span = ⟨utf8Length before, utf8Length (before ++ word)⟩ := by
  constructor
  · intro h
    obtain ⟨before, htoken, rfl⟩ := mem_words_iff.1 (List.mem_of_find?_eq_some h)
    have htouches := List.find?_some h
    simp only [Bool.and_eq_true, decide_eq_true_eq] at htouches
    exact ⟨before, htoken, htouches, rfl⟩
  · rintro ⟨before, htoken, htouches, rfl⟩
    have hmem := mem_words_iff.2 ⟨before, htoken, rfl⟩
    cases hfind : (scanWords line 0 0).find? fun (_, span) =>
        span.start ≤ cursor && cursor ≤ span.stop with
    | none =>
        have hnot := List.find?_eq_none.1 hfind _ hmem
        simp only [Bool.and_eq_true, decide_eq_true_eq] at hnot
        exact absurd htouches hnot
    | some found =>
        -- what is found first touches the cursor, too, and so it is the same token
        obtain ⟨word', span'⟩ := found
        obtain ⟨before', htoken', rfl⟩ := mem_words_iff.1 (List.mem_of_find?_eq_some hfind)
        have htouches' := List.find?_some hfind
        simp only [Bool.and_eq_true, decide_eq_true_eq] at htouches'
        obtain ⟨rfl, rfl⟩ := htoken.unique htoken' htouches htouches'
        rfl

theorem wordAt?_eq_some_iff (h : '\n' ∉ line) {column : UInt32} {word : Word} :
    wordAt? line column = some word ↔ ∃ before token, IsToken line before token ∧
      Touches before token (columnOffset line column) ∧ IsWord line before token word := by
  have hcolumns {before token : List Char} (htoken : IsToken line before token) :
      ((LineTable.ofList line).positionAt (utf8Length before)).character =
        (utf16Length before).toUInt32 ∧
      ((LineTable.ofList line).positionAt (utf8Length (before ++ token))).character =
        (utf16Length (before ++ token)).toUInt32 := by
    obtain ⟨after, hline⟩ := htoken.exists_after
    have hprefix : before ++ token <+: line := ⟨after, hline.symm⟩
    exact ⟨columns_eq h ((List.prefix_append before token).trans hprefix), columns_eq h hprefix⟩
  unfold wordAt?
  simp only [Option.map_eq_some_iff]
  constructor
  · rintro ⟨⟨token, span⟩, hfind, rfl⟩
    obtain ⟨before, htoken, htouches, rfl⟩ := find?_words_eq_some_iff.1 hfind
    obtain ⟨hstart, hstop⟩ := hcolumns htoken
    exact ⟨before, token, htoken, htouches, .of_eq htoken rfl hstart hstop⟩
  · rintro ⟨before, token, htoken, htouches, hword⟩
    obtain ⟨hstart, hstop⟩ := hcolumns htoken
    refine ⟨(token, _), find?_words_eq_some_iff.2 ⟨before, htoken, htouches, rfl⟩, ?_⟩
    obtain ⟨text, start, stop⟩ := word
    rw [hstart, hstop, ← hword.text, ← hword.start, ← hword.stop]

end HtmlIds
