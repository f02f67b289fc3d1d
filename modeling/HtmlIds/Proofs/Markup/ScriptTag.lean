import HtmlIds.Markup.ScriptRegion
import HtmlIds.Proofs.Text.Blank
import HtmlIds.Proofs.Text.Length
import HtmlIds.Proofs.Text.Run

namespace HtmlIds

def foldings : Char → List Char
  | 's' => ['s', 'S', 'ſ']
  | 'c' => ['c', 'C']
  | 'r' => ['r', 'R']
  | 'i' => ['i', 'I']
  | 'p' => ['p', 'P']
  | 't' => ['t', 'T']
  | c => [c]

def IsSpelling (word part : List Char) : Prop :=
  List.Forall₂ (fun letter c => c ∈ foldings letter) word part

def OpenerAt (text : List Char) (p e : Nat) : Prop :=
  ∃ tag attributes rest, text.drop p = tag ++ attributes ++ '>' :: rest ∧
    IsSpelling scriptOpener tag ∧ '>' ∉ attributes ∧ e = p + (tag ++ attributes).length + 1

def CloserAt (text : List Char) (s : Nat) : Prop :=
  ∃ closing rest, text.drop s = closing ++ rest ∧ IsSpelling scriptCloser closing

def BlockMatch (text : List Char) (p e s : Nat) : Prop :=
  ∃ tag attributes content closing rest,
    text.drop p = tag ++ attributes ++ '>' :: (content ++ closing ++ rest) ∧
    IsSpelling scriptOpener tag ∧ '>' ∉ attributes ∧ IsSpelling scriptCloser closing ∧
    e = p + (tag ++ attributes).length + 1 ∧ s = e + content.length

variable {text : List Char} {p p' e e' s k : Nat}

theorem scriptOpener_subset : scriptOpener ⊆ scriptCloser := by
  decide

theorem spells_letter_iff {c small : Char} (capital : Char)
    (hcapital : 65 ≤ capital.toNat ∧ capital.toNat ≤ 90) (hsmall : small.toNat = capital.toNat + 32) :
    spells c small = true ↔ (c = small ∨ c = capital) ∨ c = 'ſ' ∧ small = 's' := by
  rw [spells, Bool.or_eq_true, Bool.and_eq_true, beq_iff_eq, beq_iff_eq, beq_iff_eq,
    toLower_eq_iff hcapital hsmall]

theorem spells_sign_iff {c sign : Char} (hcapital : ¬(65 ≤ sign.toNat ∧ sign.toNat ≤ 90))
    (hsmall : ¬(97 ≤ sign.toNat ∧ sign.toNat ≤ 122)) : spells c sign = true ↔ c = sign := by
  have hne : sign ≠ 's' := by
    rintro rfl
    exact hsmall (by decide)
  rw [spells, Bool.or_eq_true, Bool.and_eq_true, beq_iff_eq, beq_iff_eq, beq_iff_eq,
    toLower_eq_iff_of_not_alpha hcapital hsmall, or_iff_left fun h => hne h.2]

theorem spells_iff {c letter : Char} (h : letter ∈ scriptCloser) :
    spells c letter = true ↔ c ∈ foldings letter := by
  have hword : scriptCloser = ['<', '/', 's', 'c', 'r', 'i', 'p', 't', '>'] := rfl
  simp only [hword, List.mem_cons, List.not_mem_nil, or_false] at h
  rcases h with rfl | rfl | rfl | rfl | rfl | rfl | rfl | rfl | rfl
  · exact (spells_sign_iff (by decide) (by decide)).trans (by simp [foldings])
  · exact (spells_sign_iff (by decide) (by decide)).trans (by simp [foldings])
  · exact (spells_letter_iff 'S' (by decide) rfl).trans (by simp [foldings, or_assoc])
  · exact (spells_letter_iff 'C' (by decide) rfl).trans (by simp [foldings])
  · exact (spells_letter_iff 'R' (by decide) rfl).trans (by simp [foldings])
  · exact (spells_letter_iff 'I' (by decide) rfl).trans (by simp [foldings])
  · exact (spells_letter_iff 'P' (by decide) rfl).trans (by simp [foldings])
  · exact (spells_letter_iff 'T' (by decide) rfl).trans (by simp [foldings])
  · exact (spells_sign_iff (by decide) (by decide)).trans (by simp [foldings])

theorem startsWithWord_iff {word list : List Char} (h : ∀ letter ∈ word, letter ∈ scriptCloser) :
    startsWithWord word list = true ↔ ∃ part rest, list = part ++ rest ∧ IsSpelling word part := by
  induction word generalizing list with
  | nil => exact iff_of_true rfl ⟨[], list, rfl, .nil⟩
  | cons letter word ih =>
      obtain ⟨hletter, hword⟩ := List.forall_mem_cons.1 h
      cases list with
      | nil =>
          refine iff_of_false Bool.false_ne_true ?_
          rintro ⟨part, rest, heq, hspelling⟩
          obtain ⟨rfl, -⟩ := List.append_eq_nil_iff.1 heq.symm
          cases hspelling
      | cons c list =>
          rw [startsWithWord, Bool.and_eq_true, spells_iff hletter, ih hword]
          constructor
          · rintro ⟨hc, part, rest, rfl, hspelling⟩
            exact ⟨c :: part, rest, rfl, .cons hc hspelling⟩
          · rintro ⟨part, rest, heq, hspelling⟩
            cases hspelling with
            | cons hc hspelling =>
                obtain ⟨rfl, rfl⟩ := List.cons.inj heq
                exact ⟨hc, _, rest, rfl, hspelling⟩

theorem closerAt_iff : CloserAt text s ↔ startsWithWord scriptCloser (text.drop s) = true :=
  (startsWithWord_iff fun _ h => h).symm

theorem IsSpelling.stop_not_mem {tag : List Char} (h : IsSpelling scriptOpener tag) : '>' ∉ tag := by
  have hletters : scriptOpener.all ('>' ∉ foldings ·) = true := by decide
  intro hmem
  obtain ⟨letter, hletter, hfolding⟩ := exists_of_mem_forall₂ h hmem
  exact of_decide_eq_true (List.all_eq_true.1 hletters letter hletter) hfolding

theorem IsSpelling.length_eq {word part : List Char} (h : IsSpelling word part) :
    part.length = word.length :=
  (List.Forall₂.length_eq h).symm

theorem openerAt_iff : OpenerAt text p e ↔ startsWithWord scriptOpener (text.drop p) = true ∧
    ∃ g, FirstFrom text '>' p g ∧ e = g + 1 := by
  have hstop {tag attributes rest : List Char} (hdrop : text.drop p = tag ++ attributes ++ '>' :: rest)
      (htag : IsSpelling scriptOpener tag) (hattributes : '>' ∉ attributes) :
      FirstFrom text '>' p (p + (tag ++ attributes).length) :=
    firstFrom_of_drop hdrop (by simp [htag.stop_not_mem, hattributes])
  rw [startsWithWord_iff fun _ h => scriptOpener_subset h]
  constructor
  · rintro ⟨tag, attributes, rest, hdrop, htag, hattributes, rfl⟩
    exact ⟨⟨tag, _, by rw [hdrop, List.append_assoc], htag⟩, _, hstop hdrop htag hattributes, rfl⟩
  · rintro ⟨⟨tag, more, hdrop, htag⟩, g, hfirst, rfl⟩
    have hmem := hfirst.mem_drop
    rw [hdrop, List.mem_append, or_iff_right htag.stop_not_mem] at hmem
    obtain ⟨attributes, rest, rfl, hattributes⟩ := List.eq_append_cons_of_mem hmem
    have htext : text.drop p = tag ++ attributes ++ '>' :: rest := by
      rw [hdrop, List.append_assoc]
    refine ⟨tag, attributes, rest, htext, htag, hattributes, ?_⟩
    rw [hfirst.unique (hstop htext htag hattributes)]

theorem OpenerAt.unique (h : OpenerAt text p e) (h' : OpenerAt text p e') : e = e' := by
  obtain ⟨-, g, hfirst, rfl⟩ := openerAt_iff.1 h
  obtain ⟨-, g', hfirst', rfl⟩ := openerAt_iff.1 h'
  rw [hfirst.unique hfirst']

theorem OpenerAt.lt (h : OpenerAt text p e) : p + scriptOpener.length < e := by
  obtain ⟨tag, attributes, -, -, htag, -, rfl⟩ := h
  rw [List.length_append, htag.length_eq]
  omega

theorem OpenerAt.le_length (h : OpenerAt text p e) : e ≤ text.length := by
  obtain ⟨-, g, hfirst, rfl⟩ := openerAt_iff.1 h
  exact (List.getElem?_eq_some_iff.1 hfirst.found).1

theorem OpenerAt.mono (h : OpenerAt text p e) (h' : OpenerAt text p' e') (hle : p ≤ p') : e ≤ e' := by
  obtain ⟨-, g, hfirst, rfl⟩ := openerAt_iff.1 h
  obtain ⟨-, g', hfirst', rfl⟩ := openerAt_iff.1 h'
  exact Nat.succ_le_succ (hfirst.le_of_found (Nat.le_trans hle hfirst'.le) hfirst'.found)

theorem CloserAt.le_length (h : CloserAt text s) : s + scriptCloser.length ≤ text.length := by
  obtain ⟨closing, rest, hdrop, hclosing⟩ := h
  have hlength := congrArg List.length hdrop
  rw [List.length_drop, List.length_append, hclosing.length_eq] at hlength
  have hpos : 0 < scriptCloser.length := by decide
  omega

theorem CloserAt.exists_drop (h : CloserAt text s) : ∃ rest, text.drop s = '<' :: rest := by
  obtain ⟨closing, rest, hdrop, hspelling⟩ := h
  have hword : scriptCloser = '<' :: "/script>".toList := rfl
  rw [hword, IsSpelling, List.forall₂_cons_left_iff] at hspelling
  obtain ⟨c, closing, hc, -, rfl⟩ := hspelling
  obtain rfl : c = '<' := List.mem_singleton.1 hc
  exact ⟨closing ++ rest, hdrop⟩

theorem blockMatch_iff : BlockMatch text p e s ↔ OpenerAt text p e ∧ e ≤ s ∧ CloserAt text s := by
  constructor
  · rintro ⟨tag, attributes, content, closing, rest, hdrop, htag, hattributes, hclosing, rfl, rfl⟩
    have hcontent := drop_of_drop_append_cons hdrop
    rw [List.append_assoc] at hcontent
    exact ⟨⟨tag, attributes, _, hdrop, htag, hattributes, rfl⟩, Nat.le_add_right ..,
      closing, rest, drop_of_drop_append hcontent, hclosing⟩
  · rintro ⟨⟨tag, attributes, more, hdrop, htag, hattributes, rfl⟩, hle, hcloser⟩
    have hlength := hcloser.le_length
    obtain ⟨closing, rest, hs, hclosing⟩ := hcloser
    obtain ⟨n, rfl⟩ := Nat.exists_eq_add_of_le hle
    have hmore := drop_of_drop_append_cons hdrop
    have hn : n ≤ more.length := by
      rw [← hmore, List.length_drop]
      omega
    refine ⟨tag, attributes, more.take n, closing, rest, ?_, htag, hattributes, hclosing, rfl, ?_⟩
    · rw [hdrop, List.append_assoc (more.take n), ← hs, ← List.drop_drop, hmore,
        List.take_append_drop]
    · rw [List.length_take_of_le hn]

end HtmlIds
