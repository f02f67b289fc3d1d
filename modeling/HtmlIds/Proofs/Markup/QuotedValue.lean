import HtmlIds.Proofs.Markup.IdDeclarations
import Mathlib.Data.List.TakeWhile

namespace HtmlIds

variable {text written value rest rest' : List Char} {q q' : Nat} {quote quote' close : Char}

def IdQuote (text : List Char) (q : Nat) (quote : Char) (rest : List Char) : Prop :=
  ∃ blank i d, 4 ≤ q ∧ text.drop (q - 4) = blank :: i :: d :: '=' :: quote :: rest ∧
    isBlank blank = true ∧ (i = 'i' ∨ i = 'I') ∧ (d = 'd' ∨ d = 'D') ∧ isQuote quote = true

def WrittenId (text : List Char) (q : Nat) (written : List Char) : Prop :=
  ∃ quote after, IdQuote text q quote (written ++ quote :: after) ∧ quote ∉ written

def beforeQuote (written : List Char) : List Char :=
  written.takeWhile (!isQuote ·)

structure OpenedAt (text : String) (q : Nat) (d : IdDeclaration) : Prop where
  mem : d ∈ idDeclarations text
  start_eq : d.span.start = byteOffset text.toList (q + 1)

structure CutValue (text : List Char) (q : Nat) (d : IdDeclaration) : Prop where
  value_eq : d.value.toList = (text.drop (q + 1)).take d.value.toList.length
  stop_eq : d.span.stop = byteOffset text (q + 1 + d.value.toList.length)
  opening : ∃ c, text[q]? = some c ∧ isQuote c = true
  closing : ∃ c, text[q + 1 + d.value.toList.length]? = some c ∧ isQuote c = true
  unquoted : ∀ c ∈ d.value.toList, isQuote c = false
  same_iff : text[q]? = text[q + 1 + d.value.toList.length]? ↔ WrittenId text q d.value.toList
  cut : ∀ written, WrittenId text q written → d.value.toList = beforeQuote written
  whole_iff : ∀ written, WrittenId text q written →
    (d.value.toList = written ↔ ∀ c ∈ written, isQuote c = false)

structure ValuesCut (text : String) : Prop where
  opened : ∀ d ∈ idDeclarations text, ∃ q, OpenedAt text q d
  values : ∀ q d, OpenedAt text q d → CutValue text.toList q d
  merged_iff : ∀ q d written q' d' written', OpenedAt text q d → WrittenId text.toList q written →
    OpenedAt text q' d' → WrittenId text.toList q' written' →
      (d.value = d'.value ↔ beforeQuote written = beforeQuote written')
  passed_iff : ∀ q written, WrittenId text.toList q written →
    ((¬∃ value, OpensId text.toList q value) ↔ beforeQuote written = [])

theorem IdQuote.drop_eq (h : IdQuote text q quote rest) : text.drop q = quote :: rest := by
  obtain ⟨blank, i, d, hq, hdrop, -⟩ := h
  rw [show q = q - 4 + 4 by omega, ← List.drop_drop, hdrop]
  rfl

theorem IdQuote.unique (h : IdQuote text q quote rest) (h' : IdQuote text q quote' rest') :
    quote = quote' ∧ rest = rest' :=
  List.cons.inj (h.drop_eq.symm.trans h'.drop_eq)

theorem IdQuote.getElem?_append (h : IdQuote text q quote (value ++ close :: rest)) :
    text[q]? = some quote ∧ text[q + 1 + value.length]? = some close := by
  have hdrop := h.drop_eq
  constructor
  · rw [← List.head?_drop, hdrop]
    rfl
  · rw [Nat.add_assoc, Nat.add_comm 1, ← List.getElem?_drop, hdrop]
    simp

theorem opensId_iff_idQuote : OpensId text q value ↔ ∃ quote close after,
    IdQuote text q quote (value ++ close :: after) ∧ value ≠ [] ∧
      (∀ c ∈ value, isQuote c = false) ∧ isQuote close = true := by
  constructor
  · rintro ⟨blank, i, d, quote, close, after, hq, hdrop, hblank, hi, hd, hquote, h⟩
    exact ⟨quote, close, after, ⟨blank, i, d, hq, hdrop, hblank, hi, hd, hquote⟩, h⟩
  · rintro ⟨quote, close, after, ⟨blank, i, d, hq, hdrop, hblank, hi, hd, hquote⟩, h⟩
    exact ⟨blank, i, d, quote, close, after, hq, hdrop, hblank, hi, hd, hquote, h⟩

theorem IdQuote.isQuote (h : IdQuote text q quote rest) : isQuote quote = true := by
  obtain ⟨-, -, -, -, -, -, -, -, hquote⟩ := h
  exact hquote

theorem beforeQuote_eq_self_iff :
    beforeQuote written = written ↔ ∀ c ∈ written, isQuote c = false := by
  simp [beforeQuote, List.takeWhile_eq_self_iff]

theorem beforeQuote_append_cons (written : List Char) (hquote : isQuote quote = true)
    (rest : List Char) : beforeQuote (written ++ quote :: rest) = beforeQuote written := by
  induction written with
  | nil => simp [beforeQuote, hquote]
  | cons c written ih =>
      cases hc : isQuote c with
      | true => simp [beforeQuote, hc]
      | false => simpa [beforeQuote, hc] using ih

theorem WrittenId.opensId_iff (h : WrittenId text q written) :
    OpensId text q value ↔ value = beforeQuote written ∧ value ≠ [] := by
  obtain ⟨quote, after, hid, -⟩ := h
  have hcut := beforeQuote_append_cons written hid.isQuote after
  rw [opensId_iff_idQuote]
  constructor
  · rintro ⟨quote', close, after', hid', hne, hvalue, hclose⟩
    obtain ⟨rfl, hrest⟩ := hid.unique hid'
    refine ⟨?_, hne⟩
    calc value = beforeQuote value := (beforeQuote_eq_self_iff.2 hvalue).symm
      _ = beforeQuote (value ++ close :: after') := (beforeQuote_append_cons value hclose after').symm
      _ = beforeQuote written := by rw [← hrest, hcut]
  · rintro ⟨rfl, hne⟩
    have hlength : (beforeQuote (written ++ quote :: after)).length <
        (written ++ quote :: after).length := by
      have hle : (beforeQuote written).length ≤ written.length :=
        (List.takeWhile_prefix _).length_le
      rw [hcut, List.length_append, List.length_cons]
      omega
    obtain ⟨close, rest, hrest, hclose⟩ := exists_eq_run_append hlength
    change _ = beforeQuote _ ++ close :: rest at hrest
    rw [hcut] at hrest
    refine ⟨quote, close, rest, hrest ▸ hid, hne, fun c hc => ?_, by simpa using hclose⟩
    simpa using List.mem_takeWhile_imp hc

theorem OpensId.writtenId_iff (h : OpensId text q value) :
    text[q]? = text[q + 1 + value.length]? ↔ WrittenId text q value := by
  obtain ⟨quote, close, after, hid, -, hvalue, -⟩ := opensId_iff_idQuote.1 h
  obtain ⟨hopening, hclosing⟩ := hid.getElem?_append
  rw [hopening, hclosing]
  constructor
  · intro hsame
    obtain rfl := Option.some.inj hsame
    refine ⟨quote, after, hid, fun hmem => ?_⟩
    exact Bool.false_ne_true ((hvalue quote hmem).symm.trans hid.isQuote)
  · rintro ⟨quote', after', hid', -⟩
    obtain ⟨hopening', hclosing'⟩ := hid'.getElem?_append
    exact (hopening.symm.trans hopening').trans (hclosing'.symm.trans hclosing)

variable {source : String} {d d' : IdDeclaration}

theorem OpenedAt.opensId (h : OpenedAt source q d) : OpensId source.toList q d.value.toList ∧
    d.span.stop = byteOffset source.toList (q + 1 + d.value.toList.length) := by
  obtain ⟨g, hdeclares⟩ := exists_declares_of_mem h.mem
  obtain ⟨p, name, q', value, htag, hlast⟩ := hdeclares.candidate
  obtain ⟨hvalue, hspan⟩ := hdeclares.value p name q' value htag hlast
  obtain ⟨quote, close, after, hid, -⟩ := opensId_iff_idQuote.1 hlast.opens
  have hlt : q' + 1 + value.length < source.toList.length :=
    (List.getElem?_eq_some_iff.1 hid.getElem?_append.2).1
  have hstart : byteOffset source.toList (q' + 1) = byteOffset source.toList (q + 1) := by
    rw [← h.start_eq, hspan]
  have hq : q' = q := by
    rcases Nat.lt_trichotomy q' q with hbefore | heq | hafter
    · exact absurd hstart (Nat.ne_of_lt (byteOffset_lt (by omega) (by omega)))
    · exact heq
    · exact absurd hstart (Nat.ne_of_gt (byteOffset_lt (by omega) (by omega)))
  rw [hvalue, hspan, String.toList_ofList, ← hq]
  exact ⟨hlast.opens, rfl⟩

theorem exists_openedAt (h : d ∈ idDeclarations source) : ∃ q, OpenedAt source q d := by
  obtain ⟨g, hdeclares⟩ := exists_declares_of_mem h
  obtain ⟨p, name, q, value, htag, hlast⟩ := hdeclares.candidate
  obtain ⟨-, hspan⟩ := hdeclares.value p name q value htag hlast
  exact ⟨q, h, by rw [hspan]⟩

theorem OpenedAt.value_eq (h : OpenedAt source q d) (hwritten : WrittenId source.toList q written) :
    d.value.toList = beforeQuote written :=
  (hwritten.opensId_iff.1 h.opensId.1).1

theorem OpenedAt.cutValue (h : OpenedAt source q d) : CutValue source.toList q d := by
  obtain ⟨hopens, hstop⟩ := h.opensId
  obtain ⟨quote, close, after, hid, -, hvalue, hclose⟩ := opensId_iff_idQuote.1 hopens
  obtain ⟨hopening, hclosing⟩ := hid.getElem?_append
  exact {
    value_eq := hopens.take_eq.symm
    stop_eq := hstop
    opening := ⟨quote, hopening, hid.isQuote⟩
    closing := ⟨close, hclosing, hclose⟩
    unquoted := hvalue
    same_iff := hopens.writtenId_iff
    cut := fun _ => h.value_eq
    whole_iff := fun written hwritten => by rw [h.value_eq hwritten, beforeQuote_eq_self_iff] }

theorem values_cut (source : String) : ValuesCut source where
  opened := fun _ => exists_openedAt
  values := fun _ _ h => h.cutValue
  merged_iff := by
    intro q d written q' d' written' h hwritten h' hwritten'
    rw [← String.toList_inj, h.value_eq hwritten, h'.value_eq hwritten']
  passed_iff := by
    intro q written h
    simp only [h.opensId_iff, not_exists, not_and, Classical.not_not]
    exact ⟨fun hnil => hnil _ rfl, fun hnil _ heq => heq.trans hnil⟩

theorem apostrophes_merge_ids :
    let source := "<p id=\"it's\"></p><p id=\"it'd\"></p>"
    WrittenId source.toList 6 "it's".toList ∧ WrittenId source.toList 23 "it'd".toList ∧
      idDeclarations source = [⟨"p", "it", 7, 9⟩, ⟨"p", "it", 24, 26⟩] ∧
      source.toList[6]? = some '"' ∧ source.toList[9]? = some '\'' := by
  intro source
  refine ⟨⟨'"', "></p><p id=\"it'd\"></p>".toList, ?_, by decide⟩,
    ⟨'"', "></p>".toList, ?_, by decide⟩, by decide, by decide, by decide⟩
  · exact ⟨' ', 'i', 'd', by decide, by decide, by decide, .inl rfl, .inl rfl, by decide⟩
  · exact ⟨' ', 'i', 'd', by decide, by decide, by decide, .inl rfl, .inl rfl, by decide⟩

end HtmlIds
