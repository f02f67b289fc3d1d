import HtmlIds.Proofs.Markup.TagStart
import Mathlib.Data.List.Forall2

namespace HtmlIds

variable {text : List Char}

theorem idValue?_eq_some_iff {list value : List Char} : idValue? list = some value ↔
    ∃ i d quote close after, list = i :: d :: '=' :: quote :: (value ++ close :: after) ∧
      (i = 'i' ∨ i = 'I') ∧ (d = 'd' ∨ d = 'D') ∧ isQuote quote = true ∧
      value ≠ [] ∧ (∀ c ∈ value, isQuote c = false) ∧ isQuote close = true := by
  have hi (c : Char) : c.toLower = 'i' ↔ c = 'i' ∨ c = 'I' := toLower_eq_iff (by decide) rfl
  have hd (c : Char) : c.toLower = 'd' ↔ c = 'd' ∨ c = 'D' := toLower_eq_iff (by decide) rfl
  constructor
  · intro h
    unfold idValue? at h
    split at h
    · next i d quote rest =>
        simp only [Bool.and_eq_true, decide_eq_true_eq, hi, hd] at h
        split at h
        · next hkey =>
            split at h
            · next hvalue =>
                obtain rfl := Option.some.inj h
                obtain ⟨close, after, hrest, hclose⟩ := exists_eq_run_append hvalue.2
                refine ⟨i, d, quote, close, after, ?_, hkey.1.1, hkey.1.2, hkey.2, hvalue.1, ?_, ?_⟩
                · rw [← hrest]
                · intro c hc
                  simpa using List.all_eq_true.1 List.all_takeWhile c hc
                · simpa using hclose
            · cases h
        · cases h
    · cases h
  · rintro ⟨i, d, quote, close, after, rfl, hi', hd', hquote, hne, hvalue, hclose⟩
    have hrun : (value ++ close :: after).takeWhile (!isQuote ·) = value :=
      takeWhile_append_cons (by simpa using hvalue) (by simpa using hclose)
    simp [idValue?, hi, hd, hi', hd', hquote, hrun, hne]

theorem opensId_add_four_iff {i : Nat} {value : List Char} : OpensId text (i + 4) value ↔
    ∃ c, text[i]? = some c ∧ isBlank c = true ∧ idValue? (text.drop (i + 1)) = some value := by
  simp only [idValue?_eq_some_iff]
  constructor
  · rintro ⟨c, i', d, quote, close, after, -, hdrop, hblank, h⟩
    rw [Nat.add_sub_cancel] at hdrop
    refine ⟨c, ?_, hblank, i', d, quote, close, after, ?_, h⟩
    · rw [← List.head?_drop, hdrop]
      rfl
    · rw [← List.tail_drop, hdrop]
      rfl
  · rintro ⟨c, hget, hblank, i', d, quote, close, after, hdrop, h⟩
    refine ⟨c, i', d, quote, close, after, Nat.le_add_left .., ?_, hblank, h⟩
    rw [Nat.add_sub_cancel, drop_eq_cons hget, hdrop]

theorem lastIdAttribute_cons {c : Char} (h : c ≠ '>') (rest : List Char) (offset : Nat) :
    lastIdAttribute (c :: rest) offset =
      (lastIdAttribute rest (offset + c.utf8Size)).or
        (if isBlank c then (idValue? rest).map (offset + c.utf8Size + 4, ·) else none) := by
  simp only [lastIdAttribute, if_neg h]
  cases lastIdAttribute rest (offset + c.utf8Size) <;> rfl

theorem OpensId.byteOffset_succ {q : Nat} {value : List Char} (h : OpensId text q value) :
    byteOffset text (q + 1) = byteOffset text (q - 3) + 4 := by
  obtain ⟨blank, i, d, quote, hq, -, hgi, hgd, hge, hgq, -, hi, hd, hquote⟩ := h.getElem?
  have hisize : i.utf8Size = 1 := by rcases hi with rfl | rfl <;> rfl
  have hdsize : d.utf8Size = 1 := by rcases hd with rfl | rfl <;> rfl
  have hqsize : quote.utf8Size = 1 := by
    simp only [isQuote, Bool.or_eq_true, beq_iff_eq] at hquote
    rcases hquote with rfl | rfl <;> rfl
  have hesize : '='.utf8Size = 1 := rfl
  have e3 := HtmlIds.byteOffset_succ hgi
  have e2 := HtmlIds.byteOffset_succ hgd
  have e1 := HtmlIds.byteOffset_succ hge
  have e0 := HtmlIds.byteOffset_succ hgq
  rw [show q - 3 + 1 = q - 2 by omega] at e3
  rw [show q - 2 + 1 = q - 1 by omega] at e2
  rw [show q - 1 + 1 = q by omega] at e1
  omega

theorem opened_eq_some_iff {i : Nat} {c : Char} (hc : text[i]? = some c) (offset start : Nat)
    (value : List Char) :
    (if isBlank c then (idValue? (text.drop (i + 1))).map (offset, ·) else none) =
        some (start, value) ↔ start = offset ∧ OpensId text (i + 4) value := by
  rw [opensId_add_four_iff]
  constructor
  · intro h
    split at h
    · next hblank =>
        obtain ⟨value', hvalue, heq⟩ := Option.map_eq_some_iff.1 h
        cases heq
        exact ⟨rfl, c, hc, hblank, hvalue⟩
    · cases h
  · rintro ⟨rfl, c', hc', hblank, hvalue⟩
    obtain rfl := Option.some.inj (hc.symm.trans hc')
    simp [hblank, hvalue]

theorem lastIdAttribute_spec {i g : Nat} (h : FirstFrom text '>' i g) :
    match lastIdAttribute (text.drop i) (byteOffset text i) with
    | none => ∀ q value, OpensId text q value → i + 4 ≤ q → g ≤ q
    | some (start, value) => ∃ q, OpensId text q value ∧ i + 4 ≤ q ∧ q < g ∧
        start = byteOffset text (q + 1) ∧
        ∀ q' value', OpensId text q' value' → q' < g → q' ≤ q := by
  obtain ⟨n, hn⟩ := Nat.exists_eq_add_of_le h.le
  induction n generalizing i with
  | zero =>
      obtain rfl : g = i := hn
      rw [drop_eq_cons h.found, lastIdAttribute, if_pos rfl]
      intro q value _ hle
      omega
  | succ n ih =>
      obtain ⟨c, hc⟩ : ∃ c, text[i]? = some c := by
        have hlt := (List.getElem?_eq_some_iff.1 h.found).1
        exact ⟨_, List.getElem?_eq_getElem (by omega)⟩
      have hne : c ≠ '>' := fun e => h.first i (Nat.le_refl i) (by omega) (e ▸ hc)
      have hnext : FirstFrom text '>' (i + 1) g :=
        ⟨by omega, h.found, fun j hle hlt => h.first j (by omega) hlt⟩
      have hrest := ih hnext (by omega)
      rw [drop_eq_cons hc, lastIdAttribute_cons hne, ← byteOffset_succ hc]
      cases hlast : lastIdAttribute (text.drop (i + 1)) (byteOffset text (i + 1)) with
      | some found =>
          rw [hlast] at hrest
          obtain ⟨q, hopens, hle, hlt, hstart, hmax⟩ := hrest
          exact ⟨q, hopens, by omega, hlt, hstart, hmax⟩
      | none =>
          rw [hlast] at hrest
          rw [Option.none_or]
          -- nothing opens after `i + 4`, so `i + 4` itself decides
          have hhere := opened_eq_some_iff hc (byteOffset text (i + 1) + 4)
          cases hopened : (if isBlank c then
              (idValue? (text.drop (i + 1))).map (byteOffset text (i + 1) + 4, ·) else none) with
          | none =>
              intro q value hopens hle
              rcases Nat.lt_or_eq_of_le hle with hlt | rfl
              · exact hrest q value hopens hlt
              · cases hopened.symm.trans ((hhere _ value).2 ⟨rfl, hopens⟩)
          | some found =>
              obtain ⟨hstart, hopens⟩ := (hhere _ _).1 hopened
              refine ⟨i + 4, hopens, Nat.le_refl _, ?_, ?_, fun q' value' hopens' hlt' => ?_⟩
              · exact Nat.lt_of_not_le fun hle =>
                  (hopens.ne_bracket (by have := h.le; omega) hle h.found).2 rfl
              · rw [hopens.byteOffset_succ]
                exact hstart
              · refine Nat.le_of_not_lt fun hlt => ?_
                have hle := hrest q' value' hopens' (by omega)
                omega

theorem scanIds_skip (list : List Char) (offset skip : Nat) :
    scanIds list offset skip = scanIds (list.drop skip) (offset + utf8Length (list.take skip)) 0 := by
  induction skip generalizing list offset with
  | zero => simp
  | succ skip ih =>
      cases list with
      | nil => simp [scanIds]
      | cons c rest => simp [scanIds, ih, Nat.add_assoc]

/-- What the declaration is that belongs to the stop `g`: the tag that starts first names it, and
the last candidate of any tag with that stop gives its value. -/
structure Declares (text : List Char) (g : Nat) (d : IdDeclaration) : Prop where
  tag : ∃ p name, Tag text p name g ∧
    (∀ p' name', Tag text p' name' g → p ≤ p') ∧ d.tag = String.ofList (asciiLower name)
  candidate : ∃ p name q value, Tag text p name g ∧ LastIdCandidate text p name g q value
  value : ∀ p name q value, Tag text p name g → LastIdCandidate text p name g q value →
    d.value = String.ofList value ∧
      d.span = ⟨byteOffset text (q + 1), byteOffset text (q + 1 + value.length)⟩
  slice : ∃ before after, text = before ++ d.value.toList ++ after ∧
    d.span = ⟨utf8Length before, utf8Length (before ++ d.value.toList)⟩

def Declared (text : List Char) (g : Nat) : Prop :=
  ∃ p name q value, Tag text p name g ∧ IdCandidate text p name g q value

def DeclaredFrom (text : List Char) (k : Nat) (declarations : List IdDeclaration) : Prop :=
  ∃ stops : List Nat, stops.Pairwise (· < ·) ∧ (∀ g, g ∈ stops ↔ k ≤ g ∧ Declared text g) ∧
    List.Forall₂ (Declares text) stops declarations

def Clear (text : List Char) (k : Nat) : Prop :=
  ∀ p name g, Tag text p name g → p < k → g < k

variable {k g : Nat} {name : List Char} {d : IdDeclaration} {declarations : List IdDeclaration}

theorem clear_zero : Clear text 0 := fun _ _ _ _ h => absurd h (Nat.not_lt_zero _)

theorem Clear.succ (h : Clear text k) (hno : ∀ name, ¬TagStart text k name) :
    Clear text (k + 1) := by
  intro p name g htag hlt
  rcases Nat.lt_or_eq_of_le (Nat.le_of_lt_succ hlt) with hp | rfl
  · exact Nat.lt_succ_of_lt (h p name g htag hp)
  · exact absurd htag.toTagStart (hno name)

theorem clear_after_stop (hg : text[g]? = some '>') : Clear text (g + 1) := by
  intro p name g' htag hlt
  rcases Nat.lt_or_eq_of_le (Nat.le_of_lt_succ hlt) with hp | rfl
  · exact Nat.lt_succ_of_le (htag.stop_le hp hg)
  · cases htag.opens.symm.trans hg

theorem Clear.le_start {p : Nat} (h : Clear text k) (htag : Tag text p name g) (hle : k ≤ g) :
    k ≤ p :=
  Nat.le_of_not_lt fun hlt => Nat.not_lt_of_le hle (h p name g htag hlt)

theorem Clear.not_declared_of_lt {g' : Nat} (h : Clear text k) (htag : Tag text k name g)
    (hle : k ≤ g') (hlt : g' < g) : ¬Declared text g' := by
  rintro ⟨p, name', q, value, htag', -⟩
  exact Nat.not_le_of_lt hlt (htag.stop_mono htag' (h.le_start htag' hle))

theorem declaredFrom_nil (h : ∀ g, k ≤ g → ¬Declared text g) : DeclaredFrom text k [] := by
  refine ⟨[], .nil, fun g => ?_, .nil⟩
  simpa using h g

theorem DeclaredFrom.weaken {k' : Nat} (h : DeclaredFrom text k' declarations) (hle : k ≤ k')
    (hno : ∀ g, k ≤ g → g < k' → ¬Declared text g) : DeclaredFrom text k declarations := by
  obtain ⟨stops, hasc, hmem, hall⟩ := h
  refine ⟨stops, hasc, fun g => ?_, hall⟩
  rw [hmem]
  constructor
  · rintro ⟨hge, hdecl⟩
    exact ⟨Nat.le_trans hle hge, hdecl⟩
  · rintro ⟨hge, hdecl⟩
    exact ⟨Nat.le_of_not_lt fun hlt => hno g hge hlt hdecl, hdecl⟩

theorem DeclaredFrom.cons (h : DeclaredFrom text (g + 1) declarations) (hle : k ≤ g)
    (hno : ∀ g', k ≤ g' → g' < g → ¬Declared text g') (hd : Declares text g d) :
    DeclaredFrom text k (d :: declarations) := by
  obtain ⟨stops, hasc, hmem, hall⟩ := h
  have hdecl : Declared text g := by
    obtain ⟨p, name, q, value, htag, hlast⟩ := hd.candidate
    exact ⟨p, name, q, value, htag, hlast.toIdCandidate⟩
  refine ⟨g :: stops, List.pairwise_cons.2 ⟨fun g' hg' => ((hmem g').1 hg').1, hasc⟩,
    fun g' => ?_, .cons hd hall⟩
  rw [List.mem_cons, hmem]
  constructor
  · rintro (rfl | ⟨hge, hdecl'⟩)
    · exact ⟨hle, hdecl⟩
    · exact ⟨by omega, hdecl'⟩
  · rintro ⟨hge, hdecl'⟩
    rcases Nat.lt_trichotomy g' g with hlt | rfl | hgt
    · exact absurd hdecl' (hno g' hge hlt)
    · exact .inl rfl
    · exact .inr ⟨hgt, hdecl'⟩

theorem lastIdCandidate_of_spec {q : Nat} {value : List Char} (htag : Tag text k name g)
    (hopens : OpensId text q value) (hle : k + 1 + name.length + 4 ≤ q) (hlt : q < g)
    (hmax : ∀ q' value', OpensId text q' value' → q' < g → q' ≤ q) :
    LastIdCandidate text k name g q value where
  toIdCandidate := hopens.candidate htag (by omega) hlt
  last := fun q' value' h' => hmax q' value' h'.opens h'.before_stop

theorem declares_of_last {q : Nat} {value : List Char} (hclear : Clear text k)
    (htag : Tag text k name g) (hlast : LastIdCandidate text k name g q value) :
    Declares text g ⟨String.ofList (asciiLower name), String.ofList value,
      byteOffset text (q + 1), byteOffset text (q + 1) + utf8Length value⟩ := by
  have hstop : byteOffset text (q + 1) + utf8Length value =
      byteOffset text (q + 1 + value.length) := by
    rw [byteOffset_add text (q + 1), hlast.opens.take_eq]
  refine ⟨⟨k, name, htag, ?_, rfl⟩, ⟨k, name, q, value, htag, hlast⟩, ?_, ?_⟩
  · intro p' name' htag'
    exact hclear.le_start htag' (Nat.le_of_lt htag.lt_stop)
  · intro p' name' q' value' htag' hlast'
    obtain ⟨rfl, rfl⟩ := hlast.unique hlast' htag htag'
    exact ⟨rfl, by rw [hstop]⟩
  · refine ⟨text.take (q + 1), text.drop (q + 1 + value.length), ?_, ?_⟩
    · rw [String.toList_ofList, List.append_assoc]
      conv => lhs; rw [← List.take_append_drop (q + 1) text,
        ← List.take_append_drop value.length (text.drop (q + 1)), hlast.opens.take_eq, List.drop_drop]
    · rw [String.toList_ofList, utf8Length_append]
      rfl

theorem tagStart_iff {c : Char} (hget : text[k]? = some c) : TagStart text k name ↔
    c = '<' ∧ name = (text.drop (k + 1)).takeWhile isNameChar ∧ name ≠ [] := by
  constructor
  · rintro ⟨hopens, hname, hne⟩
    exact ⟨Option.some.inj (hget.symm.trans hopens), hname, hne⟩
  · rintro ⟨rfl, hname, hne⟩
    exact ⟨hget, hname, hne⟩

theorem scanIds_other {c : Char} (hget : text[k]? = some c) (hno : ∀ name, ¬TagStart text k name) :
    scanIds (text.drop k) (byteOffset text k) 0 =
      scanIds (text.drop (k + 1)) (byteOffset text (k + 1)) 0 := by
  have hnot : ¬(c = '<' ∧ (text.drop (k + 1)).takeWhile isNameChar ≠ []) :=
    fun h => hno _ ((tagStart_iff hget).2 ⟨h.1, rfl, h.2⟩)
  rw [drop_eq_cons hget, scanIds, byteOffset_succ hget]
  simp only [Bool.and_eq_true, decide_eq_true_eq, hnot, if_false]

theorem scanIds_unclosed (hstart : TagStart text k name)
    (hno : '>' ∉ text.drop (k + 1 + name.length)) :
    scanIds (text.drop k) (byteOffset text k) 0 = [] := by
  rw [drop_eq_cons hstart.opens, scanIds]
  simp only [← hstart.name_eq, List.drop_drop, hstart.name_ne_nil, hno, ne_eq, decide_true,
    not_false_eq_true, Bool.and_self, if_true, if_false]

theorem TagStart.byteOffset_add_length (hstart : TagStart text k name) :
    byteOffset text k + 1 + utf8Length name = byteOffset text (k + 1 + name.length) := by
  have htake : (text.drop (k + 1)).take name.length = name := by
    have hrun := take_run_length isNameChar (text.drop (k + 1))
    rw [← hstart.name_eq] at hrun
    exact hrun
  rw [byteOffset_add, htake, byteOffset_succ hstart.opens]
  rfl

theorem scanIds_tag (hstart : TagStart text k name)
    (hmem : '>' ∈ text.drop (k + 1 + name.length)) :
    let g := k + 1 + name.length + (text.drop (k + 1 + name.length)).idxOf '>'
    let later := scanIds (text.drop (g + 1)) (byteOffset text (g + 1)) 0
    scanIds (text.drop k) (byteOffset text k) 0 =
      match lastIdAttribute (text.drop (k + 1 + name.length))
        (byteOffset text (k + 1 + name.length)) with
      | none => later
      | some (start, value) =>
        ⟨String.ofList (asciiLower name), String.ofList value, start, start + utf8Length value⟩ ::
          later := by
  intro g later
  have hoffset : byteOffset text k + 1 = byteOffset text (k + 1) :=
    (byteOffset_succ hstart.opens).symm
  have hlater : scanIds (text.drop (k + 1)) (byteOffset text k + 1)
      (name.length + (text.drop (k + 1 + name.length)).idxOf '>' + 1) = later := by
    rw [scanIds_skip, List.drop_drop, hoffset, ← byteOffset_add]
    congr 2 <;> omega
  have hopens : (decide ('<' = '<') && decide (name ≠ [])) = true := by
    simp [hstart.name_ne_nil]
  rw [← hstart.byteOffset_add_length, ← hlater, drop_eq_cons hstart.opens, scanIds]
  simp only [← hstart.name_eq, List.drop_drop]
  exact (if_pos hopens).trans (if_pos hmem)

theorem not_declared_of_unclosed (hclear : Clear text k) (hstart : TagStart text k name)
    (hno : '>' ∉ text.drop (k + 1 + name.length)) (hle : k ≤ g) : ¬Declared text g := by
  rintro ⟨p, name', q, value, htag, -⟩
  have hlt : k < g := Nat.lt_of_le_of_lt (hclear.le_start htag hle) htag.lt_stop
  have hafter := hstart.after_name hlt htag.stop.found (by decide)
  obtain ⟨n, rfl⟩ := Nat.exists_eq_add_of_lt hafter
  have hfound : (text.drop (k + 1 + name.length))[n]? = some '>' := by
    rw [List.getElem?_drop, ← htag.stop.found]
    congr 1
    omega
  exact hno (List.mem_of_getElem? hfound)

theorem DeclaredFrom.tag (h : DeclaredFrom text (g + 1) declarations) (hclear : Clear text k)
    (htag : Tag text k name g) :
    DeclaredFrom text k
      (match lastIdAttribute (text.drop (k + 1 + name.length))
        (byteOffset text (k + 1 + name.length)) with
      | none => declarations
      | some (start, value) =>
        ⟨String.ofList (asciiLower name), String.ofList value, start, start + utf8Length value⟩ ::
          declarations) := by
  have hle : k ≤ g := Nat.le_of_lt htag.lt_stop
  have hbefore (g' : Nat) (hge : k ≤ g') (hlt : g' < g) : ¬Declared text g' :=
    hclear.not_declared_of_lt htag hge hlt
  have hspec := lastIdAttribute_spec htag.stop
  cases hlast : lastIdAttribute (text.drop (k + 1 + name.length))
      (byteOffset text (k + 1 + name.length)) with
  | none =>
      rw [hlast] at hspec
      refine h.weaken (Nat.le_succ_of_le hle) fun g' hge hlt => ?_
      rcases Nat.lt_or_eq_of_le (Nat.le_of_lt_succ hlt) with hg' | rfl
      · exact hbefore g' hge hg'
      · rintro ⟨p, name', q, value, htag', hcand⟩
        have hkq : k < q := Nat.lt_of_le_of_lt (hclear.le_start htag' hge) hcand.lt
        have hblank := hcand.opens.blank_after_name htag hkq
        have hnot := hspec q value hcand.opens (by omega)
        exact Nat.not_lt_of_le hnot hcand.before_stop
  | some found =>
      obtain ⟨start, value⟩ := found
      rw [hlast] at hspec
      obtain ⟨q, hopens, hq, hlt, rfl, hmax⟩ := hspec
      exact h.cons hle hbefore
        (declares_of_last hclear htag (lastIdCandidate_of_spec htag hopens hq hlt hmax))

theorem scanIds_declared (hclear : Clear text k) :
    DeclaredFrom text k (scanIds (text.drop k) (byteOffset text k) 0) := by
  induction hn : text.length - k using Nat.strongRecOn generalizing k with
  | ind n ih =>
    cases hget : text[k]? with
    | none =>
        have hlen : text.length ≤ k := List.getElem?_eq_none_iff.1 hget
        rw [List.drop_of_length_le hlen, scanIds]
        refine declaredFrom_nil fun g hle => ?_
        rintro ⟨p, name, q, value, htag, -⟩
        have hlt := (List.getElem?_eq_some_iff.1 htag.stop.found).1
        omega
    | some c =>
        have hk : k < text.length := (List.getElem?_eq_some_iff.1 hget).1
        by_cases hstart : ∃ name, TagStart text k name
        · obtain ⟨name, hstart⟩ := hstart
          by_cases hmem : '>' ∈ text.drop (k + 1 + name.length)
          · have htag : Tag text k name _ := ⟨hstart, firstFrom_idxOf hmem⟩
            have hafter := clear_after_stop htag.stop.found
            rw [scanIds_tag hstart hmem]
            exact (ih _ (by have := htag.lt_stop; omega) hafter rfl).tag hclear htag
          · rw [scanIds_unclosed hstart hmem]
            exact declaredFrom_nil fun g => not_declared_of_unclosed hclear hstart hmem
        · have hno : ∀ name, ¬TagStart text k name := not_exists.1 hstart
          rw [scanIds_other hget hno]
          refine (ih _ (by omega) (hclear.succ hno) rfl).weaken (Nat.le_succ k) fun g hge hlt => ?_
          rintro ⟨p, name, q, value, htag, -⟩
          have hle := hclear.le_start htag hge
          have hstop := htag.lt_stop
          omega

theorem Declares.start_lt_stop (h : Declares text g d) : d.span.start < d.span.stop := by
  obtain ⟨p, name, q, value, htag, hlast⟩ := h.candidate
  obtain ⟨-, hspan⟩ := h.value p name q value htag hlast
  rw [hspan, byteOffset_add text (q + 1), hlast.opens.take_eq]
  exact Nat.lt_add_of_pos_right (utf8Length_pos hlast.opens.ne_nil)

theorem Declares.stop_lt_start {g' : Nat} {d' : IdDeclaration} (h : Declares text g d)
    (h' : Declares text g' d') (hlt : g < g') : d.span.stop < d'.span.start := by
  obtain ⟨p, name, q, value, htag, hlast⟩ := h.candidate
  obtain ⟨p', name', q', value', htag', hlast'⟩ := h'.candidate
  obtain ⟨-, hspan⟩ := h.value p name q value htag hlast
  obtain ⟨-, hspan'⟩ := h'.value p' name' q' value' htag' hlast'
  obtain ⟨-, -, -, quote, -, -, -, -, -, hquote, -, -, -, hisQuote⟩ := hlast'.opens.getElem?
  have hqq : q < q' := calc
    q < g := hlast.before_stop
    _ < p' := htag.stop_lt htag' hlt
    _ < q' := hlast'.lt
  obtain ⟨n, rfl⟩ := Nat.exists_eq_add_of_lt hqq
  have hlen : value.length ≤ n := by
    rw [hlast.opens.eq_run]
    refine run_length_le ?_ (show (!isQuote quote) = false by simpa using hisQuote)
    rw [List.getElem?_drop, ← hquote]
    congr 1
    omega
  rw [hspan, hspan']
  calc byteOffset text (q + 1 + value.length)
      ≤ byteOffset text (q + n + 1) := byteOffset_mono text (by omega)
    _ < byteOffset text (q + n + 1 + 1) := by
        rw [byteOffset_succ hquote]
        exact Nat.lt_add_of_pos_right quote.utf8Size_pos

theorem declares_pairwise {stops : List Nat} (hasc : stops.Pairwise (· < ·))
    (h : List.Forall₂ (Declares text) stops declarations) :
    declarations.Pairwise fun d d' => d.span.stop < d'.span.start := by
  induction h with
  | nil => exact .nil
  | cons hd hall ih =>
      obtain ⟨hhead, htail⟩ := List.pairwise_cons.1 hasc
      refine List.pairwise_cons.2 ⟨fun d' hd' => ?_, ih htail⟩
      obtain ⟨g', hg', hdeclares⟩ := exists_of_mem_forall₂ hall hd'
      exact hd.stop_lt_start hdeclares (hhead g' hg')

theorem exists_declares_of_mem {text : String} (h : d ∈ idDeclarations text) :
    ∃ g, Declares text.toList g d := by
  obtain ⟨stops, -, -, hall⟩ : DeclaredFrom text.toList 0 (idDeclarations text) :=
    scanIds_declared clear_zero
  obtain ⟨g, -, hdeclares⟩ := exists_of_mem_forall₂ hall h
  exact ⟨g, hdeclares⟩

theorem value_ne_nil {text : String} (h : d ∈ idDeclarations text) : d.value.toList ≠ [] := by
  obtain ⟨g, hdeclares⟩ := exists_declares_of_mem h
  obtain ⟨p, name, q, value, htag, hlast⟩ := hdeclares.candidate
  rw [(hdeclares.value p name q value htag hlast).1, String.toList_ofList]
  exact hlast.opens.ne_nil

theorem exists_mem_of_declared {text : String} (h : Declared text.toList g) :
    ∃ d ∈ idDeclarations text, Declares text.toList g d := by
  obtain ⟨stops, -, hmem, hall⟩ : DeclaredFrom text.toList 0 (idDeclarations text) :=
    scanIds_declared clear_zero
  exact exists_of_mem_forall₂ hall.flip ((hmem g).2 ⟨Nat.zero_le g, h⟩)

theorem idDeclarations_ascending (text : String) :
    (idDeclarations text).Pairwise fun d d' => d.span.start < d'.span.start := by
  obtain ⟨stops, hasc, -, hall⟩ : DeclaredFrom text.toList 0 (idDeclarations text) :=
    scanIds_declared clear_zero
  refine (declares_pairwise hasc hall).imp_of_mem fun hd _ hlt => ?_
  obtain ⟨g, hdeclares⟩ := exists_declares_of_mem hd
  exact Nat.lt_trans hdeclares.start_lt_stop hlt

theorem idDeclarations_nodup (text : String) : (idDeclarations text).Nodup := by
  refine (idDeclarations_ascending text).imp fun {d d'} hlt => ?_
  rintro rfl
  exact Nat.lt_irrefl _ hlt

theorem idDeclarations_exact (text : String) :
    (∃ stops : List Nat, stops.Pairwise (· < ·) ∧
      (∀ g, g ∈ stops ↔ ∃ p name q value,
        Tag text.toList p name g ∧ IdCandidate text.toList p name g q value) ∧
      List.Forall₂ (Declares text.toList) stops (idDeclarations text)) ∧
    (∀ d ∈ idDeclarations text, d.span.start < d.span.stop) ∧
    (idDeclarations text).Pairwise fun d d' => d.span.stop < d'.span.start := by
  obtain ⟨stops, hasc, hmem, hall⟩ : DeclaredFrom text.toList 0 (idDeclarations text) :=
    scanIds_declared clear_zero
  refine ⟨⟨stops, hasc, fun g => ?_, hall⟩, fun d hd => ?_, declares_pairwise hasc hall⟩
  · rw [hmem]
    exact and_iff_right (Nat.zero_le g)
  · obtain ⟨g, -, hdeclares⟩ := exists_of_mem_forall₂ hall hd
    exact hdeclares.start_lt_stop

end HtmlIds
