import HtmlIds.Proofs.Editor.WordAtCursor
import HtmlIds.Proofs.Markup.TagStart

namespace HtmlIds

def IsName (name : List Char) : Prop :=
  ∃ first rest, name = first :: rest ∧ isWordStart first = true ∧ ∀ c ∈ rest, isWordChar c = true

/-- A text taken apart at a dot: before it the longest run of word characters that ends there, after
it nothing or a name. -/
structure DotSplit (before lead run begun : List Char) : Prop where
  run : MaximalRun isWordChar before lead run ('.' :: begun)
  begun : begun = [] ∨ IsName begun

structure DotMatch (before lead base begun : List Char) : Prop where
  eq_append : before = lead ++ base ++ '.' :: begun
  base : IsName base
  begun : begun = [] ∨ IsName begun

structure DotsRead (before : List Char) : Prop where
  base : ∀ base, identifierBeforeDot? before = some base ↔ ∃ lead run begun,
    DotSplit before lead run begun ∧ base.toList = run.dropWhile Char.isDigit ∧ base.toList ≠ []
  unique : ∀ lead run begun lead' run' begun', DotSplit before lead run begun →
    DotSplit before lead' run' begun' → lead = lead' ∧ run = run' ∧ begun = begun'
  leftmost : ∀ base, identifierBeforeDot? before = some base ↔ ∃ lead begun,
    DotMatch before lead base.toList begun ∧
    ∀ lead' base' begun', DotMatch before lead' base' begun' → lead.length ≤ lead'.length
  access : isMemberAccess before = true ↔ ∃ lead blanks part,
    before = lead ++ '.' :: (blanks ++ part) ∧ (∀ c ∈ blanks, isBlank c = true) ∧
    ∀ c ∈ part, isWordChar c = true

variable {before lead lead' run run' base base' begun begun' : List Char}

theorem IsName.isWordChar (h : IsName base) : ∀ c ∈ base, isWordChar c = true := by
  obtain ⟨first, rest, rfl, hstart, hrest⟩ := h
  exact List.forall_mem_cons.2 ⟨(isWordStart_iff.1 hstart).1, hrest⟩

theorem isWordChar_of_begun (h : begun = [] ∨ IsName begun) : ∀ c ∈ begun, isWordChar c = true := by
  rcases h with rfl | h
  · nofun
  · exact h.isWordChar

theorem isWordChar_dot : isWordChar '.' = false := by decide

theorem begun_eq (h : begun = [] ∨ IsName begun) (front : List Char) :
    (front ++ '.' :: begun).rtakeWhile isWordChar = begun := by
  have hconcat : front ++ '.' :: begun = (front ++ ['.']) ++ begun := by simp
  have hdot : ∀ c ∈ (front ++ ['.']).getLast?, isWordChar c = false := by simp [isWordChar_dot]
  rw [hconcat, rtakeWhile_append_of_getLast hdot (isWordChar_of_begun h)]

theorem front_eq (h : begun = [] ∨ IsName begun) (h' : begun' = [] ∨ IsName begun')
    {front front' : List Char} (heq : front ++ '.' :: begun = front' ++ '.' :: begun') :
    front = front' ∧ begun = begun' := by
  have hbegun : begun = begun' := by rw [← begun_eq h front, ← begun_eq h' front', heq]
  subst hbegun
  exact ⟨List.append_cancel_right heq, rfl⟩

theorem DotSplit.unique (h : DotSplit before lead run begun)
    (h' : DotSplit before lead' run' begun') : lead = lead' ∧ run = run' ∧ begun = begun' := by
  obtain ⟨hfront, rfl⟩ :=
    front_eq h.begun h'.begun (h.run.eq_append.symm.trans h'.run.eq_append)
  obtain ⟨rfl, rfl⟩ := h.run.unique h'.run hfront
  exact ⟨rfl, rfl, rfl⟩

theorem DotSplit.isToken (h : DotSplit before lead run begun)
    (hne : run.dropWhile Char.isDigit ≠ []) :
    IsToken before (lead ++ run.takeWhile Char.isDigit) (run.dropWhile Char.isDigit) :=
  ⟨hne, lead, run, '.' :: begun, h.run, rfl, rfl⟩

theorem dotSplit_append (front : List Char) {part : List Char}
    (hpart : ∀ c ∈ part, isWordChar c = true) (h : begun = [] ∨ IsName begun) :
    DotSplit (front ++ part ++ '.' :: begun) (front.rdropWhile isWordChar)
      (front.rtakeWhile isWordChar ++ part) begun where
  run := maximalRun_append front hpart (by simp [isWordChar_dot])
  begun := h

theorem DotMatch.exists_split (h : DotMatch before lead base begun) :
    ∃ lead' run, DotSplit before lead' run begun ∧ run.dropWhile Char.isDigit ≠ [] := by
  -- what comes before the name can only make its run longer
  have hsplit := dotSplit_append lead h.base.isWordChar h.begun
  rw [← h.eq_append] at hsplit
  refine ⟨_, _, hsplit, ?_⟩
  obtain ⟨first, rest, rfl, hstart, -⟩ := h.base
  rw [Ne, List.dropWhile_eq_nil_iff]
  intro hall
  have hdigit := hall first (List.mem_append_right _ List.mem_cons_self)
  exact Bool.false_ne_true ((isWordStart_iff.1 hstart).2.symm.trans hdigit)

theorem DotSplit.dotMatch (h : DotSplit before lead run begun)
    (hne : run.dropWhile Char.isDigit ≠ []) :
    DotMatch before (lead ++ run.takeWhile Char.isDigit) (run.dropWhile Char.isDigit) begun where
  eq_append := by
    rw [List.append_assoc lead, List.takeWhile_append_dropWhile]
    exact h.run.eq_append
  base := by
    obtain ⟨after, -, -, ⟨first, rest, hbase, hdigit⟩, hword, -⟩ := isToken_iff.1 (h.isToken hne)
    rw [hbase] at hword ⊢
    obtain ⟨hfirst, hrest⟩ := List.forall_mem_cons.1 hword
    exact ⟨first, rest, rfl, isWordStart_iff.2 ⟨hfirst, hdigit⟩, hrest⟩
  begun := h.begun

theorem DotSplit.length_le (h : DotSplit before lead run begun)
    (hmatch : DotMatch before lead' base' begun') :
    (lead ++ run.takeWhile Char.isDigit).length ≤ lead'.length := by
  obtain ⟨_, _, hsplit, hne⟩ := hmatch.exists_split
  obtain ⟨rfl, rfl, rfl⟩ := h.unique hsplit
  obtain ⟨-, -, hsettled, -⟩ := isToken_iff.1 (h.isToken hne)
  have hfront : lead' ++ base' = lead ++ run.takeWhile Char.isDigit ++ run.dropWhile Char.isDigit :=
    (front_eq hmatch.begun h.begun
      (hmatch.eq_append.symm.trans (h.dotMatch hne).eq_append)).1
  refine Nat.le_of_not_lt fun hlt => ?_
  -- a match that began earlier would begin among the digits
  obtain ⟨part, hpart⟩ := List.prefix_of_prefix_length_le ⟨base', hfront⟩
    (List.prefix_append _ _) (Nat.le_of_lt hlt)
  rw [← hpart] at hsettled hlt hfront
  have hbase : part <+: base' := by
    rw [List.append_assoc] at hfront
    exact ⟨_, (List.append_cancel_left hfront).symm⟩
  cases part with
  | nil => simp at hlt
  | cons c part =>
      have hdigit := hsettled.isDigit fun a ha => hmatch.base.isWordChar a (hbase.mem ha)
      obtain ⟨first, rest, rfl, hstart, -⟩ := hmatch.base
      obtain ⟨rfl, -⟩ := List.cons_prefix_cons.1 hbase
      exact Bool.false_ne_true ((isWordStart_iff.1 hstart).2.symm.trans hdigit)

theorem identifierBeforeDot?_of_split (h : DotSplit before lead run begun) :
    identifierBeforeDot? before =
      if run.dropWhile Char.isDigit ≠ [] then some (String.ofList (run.dropWhile Char.isDigit))
      else none := by
  have hreverse : before.reverse = begun.reverse ++ '.' :: (lead ++ run).reverse := by
    simp [h.run.eq_append]
  have hbegun : before.reverse.takeWhile isWordChar = begun.reverse := by
    rw [hreverse]
    exact takeWhile_append_cons
      (fun c hc => isWordChar_of_begun h.begun c (List.mem_reverse.1 hc)) isWordChar_dot
  have hrest : before.reverse.drop begun.reverse.length = '.' :: (lead ++ run).reverse := by
    rw [hreverse, List.drop_left]
  have hrun : ((lead ++ run).reverse.takeWhile isWordChar).reverse = run := h.run.rtakeWhile_eq
  unfold identifierBeforeDot?
  simp only [hbegun, hrest, hrun]
  rcases h.begun with rfl | ⟨first, rest, rfl, hstart, -⟩
  · simp
  · simp [hstart]

theorem exists_split {base : String} (h : identifierBeforeDot? before = some base) :
    ∃ lead run begun, DotSplit before lead run begun := by
  have hlast : (before.reverse.takeWhile isWordChar).getLast? =
      (before.rtakeWhile isWordChar).head? := by rw [List.rtakeWhile, List.head?_reverse]
  unfold identifierBeforeDot? at h
  simp only [drop_run_length, hlast] at h
  split at h
  · next rest hrest =>
      have hfront : before.rdropWhile isWordChar = rest.reverse ++ ['.'] := by
        rw [List.rdropWhile, hrest, List.reverse_cons]
      have hbefore : rest.reverse ++ '.' :: before.rtakeWhile isWordChar = before := by
        rw [← List.singleton_append, ← List.append_assoc, ← hfront,
          List.rdropWhile_append_rtakeWhile]
      have hbegun : before.rtakeWhile isWordChar = [] ∨ IsName (before.rtakeWhile isWordChar) := by
        cases hrun : before.rtakeWhile isWordChar with
        | nil => exact .inl rfl
        | cons first more =>
            have hword : ∀ c ∈ first :: more, isWordChar c = true := fun c hc =>
              List.mem_rtakeWhile_imp (hrun ▸ hc)
            simp only [hrun, List.head?_cons, Option.ite_none_right_eq_some,
              Bool.and_eq_true] at h
            exact .inr ⟨first, more, rfl, h.1.1, (List.forall_mem_cons.1 hword).2⟩
      have hsplit := dotSplit_append rest.reverse (List.forall_mem_nil _) hbegun
      rw [List.append_nil, hbefore] at hsplit
      exact ⟨_, _, _, hsplit⟩
  · cases h

theorem isWordChar_eq_false_of_isBlank {c : Char} (h : isBlank c = true) : isWordChar c = false := by
  have hdollar : c ≠ '$' := by
    rintro rfl
    exact absurd h (by decide)
  have hname := isNameChar_eq_false_of_isBlank h
  rw [isNameChar] at hname
  simp [isWordChar, hname, hdollar]

theorem isMemberAccess_eq (before : List Char) : isMemberAccess before =
    (((before.rdropWhile isWordChar).rdropWhile isBlank).getLast? == some '.') := by
  simp [isMemberAccess, List.rdropWhile]

theorem isMemberAccess_iff : isMemberAccess before = true ↔ ∃ lead blanks part,
    before = lead ++ '.' :: (blanks ++ part) ∧ (∀ c ∈ blanks, isBlank c = true) ∧
    ∀ c ∈ part, isWordChar c = true := by
  rw [isMemberAccess_eq, beq_iff_eq, List.getLast?_eq_some_iff]
  constructor
  · rintro ⟨lead, hlead⟩
    have hpart := List.rdropWhile_append_rtakeWhile (p := isWordChar) (l := before)
    have hblanks := List.rdropWhile_append_rtakeWhile
      (p := isBlank) (l := before.rdropWhile isWordChar)
    rw [hlead] at hblanks
    refine ⟨lead, (before.rdropWhile isWordChar).rtakeWhile isBlank, before.rtakeWhile isWordChar,
      ?_, fun c hc => List.mem_rtakeWhile_imp hc, fun c hc => List.mem_rtakeWhile_imp hc⟩
    calc before
        = before.rdropWhile isWordChar ++ before.rtakeWhile isWordChar := hpart.symm
      _ = lead ++ ['.'] ++ (before.rdropWhile isWordChar).rtakeWhile isBlank ++
          before.rtakeWhile isWordChar := by rw [hblanks]
      _ = _ := by simp
  · rintro ⟨lead, blanks, part, rfl, hblanks, hpart⟩
    have hgap : ∀ c ∈ (lead ++ '.' :: blanks).getLast?, isWordChar c = false := by
      intro c hc
      rw [List.getLast?_append_of_ne_nil _ (List.cons_ne_nil _ _)] at hc
      rcases List.mem_cons.1 (List.mem_of_getLast? hc) with rfl | hblank
      · exact isWordChar_dot
      · exact isWordChar_eq_false_of_isBlank (hblanks c hblank)
    have hdot : ∀ c ∈ (lead ++ ['.']).getLast?, isBlank c = false := by simp; decide
    have hlist : lead ++ '.' :: (blanks ++ part) = lead ++ '.' :: blanks ++ part := by simp
    have hlist' : lead ++ '.' :: blanks = lead ++ ['.'] ++ blanks := by simp
    rw [hlist, rdropWhile_append_of_getLast hgap hpart, hlist',
      rdropWhile_append_of_getLast hdot hblanks]
    exact ⟨lead, rfl⟩

theorem identifierBeforeDot?_eq_some_iff {base : String} :
    identifierBeforeDot? before = some base ↔ ∃ lead run begun,
      DotSplit before lead run begun ∧ base.toList = run.dropWhile Char.isDigit ∧
      base.toList ≠ [] := by
  constructor
  · intro h
    obtain ⟨lead, run, begun, hsplit⟩ := exists_split h
    rw [identifierBeforeDot?_of_split hsplit] at h
    split at h
    · next hne =>
        obtain rfl := Option.some.inj h
        rw [String.toList_ofList]
        exact ⟨lead, run, begun, hsplit, rfl, hne⟩
    · cases h
  · rintro ⟨lead, run, begun, hsplit, hbase, hne⟩
    rw [identifierBeforeDot?_of_split hsplit, ← hbase, if_pos hne, String.ofList_toList]

theorem dots_read (before : List Char) : DotsRead before where
  base := fun _ => identifierBeforeDot?_eq_some_iff
  unique := fun _ _ _ _ _ _ h h' => h.unique h'
  leftmost := by
    intro base
    rw [identifierBeforeDot?_eq_some_iff]
    constructor
    · rintro ⟨lead, run, begun, hsplit, hbase, hne⟩
      rw [hbase] at hne ⊢
      exact ⟨_, begun, hsplit.dotMatch hne, fun _ _ _ hmatch => hsplit.length_le hmatch⟩
    · rintro ⟨lead, begun, hmatch, hleast⟩
      obtain ⟨lead', run, hsplit, hne⟩ := hmatch.exists_split
      have hfirst := hsplit.dotMatch hne
      have hlength := Nat.le_antisymm (hsplit.length_le hmatch) (hleast _ _ _ hfirst)
      have hfront := (front_eq hfirst.begun hmatch.begun
        (hfirst.eq_append.symm.trans hmatch.eq_append)).1
      have hbase := (List.append_inj hfront hlength).2
      exact ⟨lead', run, begun, hsplit, hbase.symm, hbase ▸ hne⟩
  access := isMemberAccess_iff

end HtmlIds
