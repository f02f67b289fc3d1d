import HtmlIds.Proofs.Json.Number
import Mathlib.Data.List.Induction

namespace HtmlIds.Reading

def AreDigits (text : List Char) : Prop :=
  text ≠ [] ∧ ∀ c ∈ text, c.isDigit = true

def IsInteger (text : List Char) : Prop :=
  ∃ sign whole, (sign = [] ∨ sign = ['-']) ∧
    (whole = ['0'] ∨ AreDigits whole ∧ whole.head? ≠ some '0') ∧ text = sign ++ whole

def IsDecimal (text : List Char) : Prop :=
  ∃ integer fraction, IsInteger integer ∧
    (fraction = [] ∨ ∃ digits, AreDigits digits ∧ fraction = '.' :: digits) ∧
    text = integer ++ fraction

def IsNumber (text : List Char) : Prop :=
  ∃ decimal exponent, IsDecimal decimal ∧
    (exponent = [] ∨ ∃ mark sign digits, (mark = 'e' ∨ mark = 'E') ∧
      (sign = [] ∨ sign = ['+'] ∨ sign = ['-']) ∧ AreDigits digits ∧
      exponent = mark :: (sign ++ digits)) ∧
    text = decimal ++ exponent

theorem IsInteger.isDecimal {text : List Char} (h : IsInteger text) : IsDecimal text :=
  ⟨text, [], h, .inl rfl, (List.append_nil text).symm⟩

theorem IsDecimal.isNumber {text : List Char} (h : IsDecimal text) : IsNumber text :=
  ⟨text, [], h, .inl rfl, (List.append_nil text).symm⟩

theorem isInteger_toDigits {sign : List Char} (hsign : sign = [] ∨ sign = ['-']) (n : Nat) :
    IsInteger (sign ++ Nat.toDigits 10 n) := by
  obtain ⟨c, rest, heq, hc, hrest, -, hzero⟩ := JsonNumber.exists_toDigits n
  refine ⟨sign, Nat.toDigits 10 n, hsign, ?_, rfl⟩
  rw [heq]
  by_cases hc0 : c = '0'
  · exact .inl (by rw [hc0, hzero hc0])
  · exact .inr ⟨⟨List.cons_ne_nil c rest, List.forall_mem_cons.2 ⟨hc, hrest⟩⟩,
      fun e => hc0 (Option.some.inj e)⟩

theorem writeNumber_integer (n : Int) : Json.writeNumber (.integer n) = (toString n).toList := rfl

theorem isNumber_writeNumber {number : JsonNumber} (h : number.IsWord) :
    IsNumber (Json.writeNumber number) := by
  rcases h.cases with ⟨n, rfl, -⟩ | ⟨n, rfl, hn, -⟩
  · rw [JsonNumber.writeNumber_ofNat]
    exact (isInteger_toDigits (.inl rfl) n).isDecimal.isNumber
  · rw [JsonNumber.writeNumber_negative hn]
    exact (isInteger_toDigits (.inr rfl) n).isDecimal.isNumber

theorem digitChar_digitValue {c : Char} (h : c.isDigit = true) :
    JsonNumber.digitValue c < 10 ∧ (JsonNumber.digitValue c).digitChar = c := by
  have hchar : ∀ d < 10, d.digitChar = Char.ofNat (48 + d) := by decide
  obtain ⟨hlow, hhigh⟩ : 48 ≤ c.toNat ∧ c.toNat ≤ 57 := Char.isDigit_iff_toNat.1 h
  have hlt : JsonNumber.digitValue c < 10 := by
    rw [JsonNumber.digitValue]
    omega
  refine ⟨hlt, ?_⟩
  have hcode : 48 + JsonNumber.digitValue c = c.toNat := by
    rw [JsonNumber.digitValue]
    omega
  rw [hchar _ hlt, hcode, Char.ofNat_toNat]

theorem digitsValue_concat (digits : List Char) (c : Char) :
    JsonNumber.digitsValue (digits ++ [c]) =
      10 * JsonNumber.digitsValue digits + JsonNumber.digitValue c := by
  rw [JsonNumber.digitsValue, List.foldl_append]
  rfl

theorem toDigits_digitsValue {digits : List Char} (h : AreDigits digits)
    (hhead : digits.head? ≠ some '0') :
    Nat.toDigits 10 (JsonNumber.digitsValue digits) = digits := by
  induction digits using List.reverseRecOn with
  | nil => exact absurd rfl h.1
  | append_singleton digits c ih =>
      obtain ⟨hlt, hchar⟩ := digitChar_digitValue (h.2 c (by simp))
      rw [digitsValue_concat]
      cases digits with
      | nil => simp [JsonNumber.digitsValue, Nat.toDigits_of_lt_base hlt, hchar]
      | cons first rest =>
          have hrest : Nat.toDigits 10 (JsonNumber.digitsValue (first :: rest)) = first :: rest :=
            ih ⟨List.cons_ne_nil first rest, fun c' hc' => h.2 c' (List.mem_append_left _ hc')⟩ hhead
          have hpos : JsonNumber.digitsValue (first :: rest) ≠ 0 := by
            intro hzero
            rw [hzero, Nat.toDigits_zero] at hrest
            exact hhead (by rw [← hrest]; rfl)
          calc Nat.toDigits 10
                (10 * JsonNumber.digitsValue (first :: rest) + JsonNumber.digitValue c)
              = Nat.toDigits 10 (JsonNumber.digitsValue (first :: rest)) ++
                  Nat.toDigits 10 (JsonNumber.digitValue c) :=
                (Nat.toDigits_append_toDigits (by decide) (Nat.pos_of_ne_zero hpos) hlt).symm
            _ = first :: rest ++ [c] := by rw [hrest, Nat.toDigits_of_lt_base hlt, hchar]

theorem mem_ne_of_digits {sign digits : List Char} (hsign : sign = [] ∨ sign = ['-'])
    (hdigits : ∀ c ∈ digits, c.isDigit = true) {c : Char} (h : c ∈ sign ++ digits) :
    c ≠ '.' ∧ c ≠ 'e' ∧ c ≠ 'E' := by
  have hc : c = '-' ∨ c.isDigit = true := by
    rcases List.mem_append.1 h with hmem | hmem
    · rcases hsign with rfl | rfl
      · cases hmem
      · exact .inl (List.mem_singleton.1 hmem)
    · exact .inr (hdigits c hmem)
  refine ⟨?_, ?_, ?_⟩ <;>
  · rintro rfl
    revert hc
    decide

theorem IsNumber.toDigits_of_digits {sign digits : List Char} (hsign : sign = [] ∨ sign = ['-'])
    (hdigits : ∀ c ∈ digits, c.isDigit = true) (h : IsNumber (sign ++ digits)) :
    Nat.toDigits 10 (JsonNumber.digitsValue digits) = digits := by
  obtain ⟨_, exponent, ⟨_, fraction, ⟨sign', whole, hsign', hwhole, rfl⟩, hfraction, rfl⟩, hexponent,
    heq⟩ := h
  have hne {c : Char} (hc : c ∈ sign' ++ whole ++ fraction ++ exponent) :=
    mem_ne_of_digits hsign hdigits (heq ▸ hc)
  obtain rfl : fraction = [] := by
    rcases hfraction with hnil | ⟨_, -, rfl⟩
    · exact hnil
    · exact absurd rfl (hne (by simp)).1
  obtain rfl : exponent = [] := by
    rcases hexponent with hnil | ⟨mark, _, _, rfl | rfl, -, -, rfl⟩
    · exact hnil
    · exact absurd rfl (hne (by simp)).2.1
    · exact absurd rfl (hne (by simp)).2.2
  have hminus : ('-' : Char) ∉ digits := fun hmem => absurd (hdigits _ hmem) (by decide)
  have hminus' : ('-' : Char) ∉ whole := by
    rcases hwhole with rfl | ⟨⟨-, hwhole⟩, -⟩
    · decide
    · exact fun hmem => absurd (hwhole _ hmem) (by decide)
  obtain rfl : digits = whole := by
    rw [List.append_nil, List.append_nil] at heq
    rcases hsign with rfl | rfl <;> rcases hsign' with rfl | rfl
    · exact heq
    · have hdigits' : digits = '-' :: whole := heq
      exact absurd (hdigits' ▸ List.mem_cons_self) hminus
    · have hwhole' : '-' :: digits = whole := heq
      exact absurd (hwhole' ▸ List.mem_cons_self) hminus'
    · exact (List.cons.inj heq).2
  rcases hwhole with rfl | ⟨hwhole, hhead⟩
  · rfl
  · exact toDigits_digitsValue hwhole hhead

theorem parts_eq {text : List Char} (hfraction : (JsonNumber.parts text).fraction = [])
    (hexponent : (JsonNumber.parts text).exponent = none) :
    text = (if (JsonNumber.parts text).negative then ['-'] else []) ++ (JsonNumber.parts text).whole
    ∧ ∀ c ∈ (JsonNumber.parts text).whole, c.isDigit = true := by
  simp only [JsonNumber.parts] at hfraction hexponent ⊢
  generalize hunsigned : (if (text.head? == some '-') = true then text.drop 1 else text) = unsigned
    at hfraction hexponent ⊢
  refine ⟨?_, fun c hc => List.all_eq_true.1 List.all_takeWhile c hc⟩
  have hall : unsigned.takeWhile Char.isDigit = unsigned := by
    rw [if_pos hfraction] at hexponent
    split at hexponent
    · next hrest =>
        exact (List.takeWhile_prefix _).eq_of_length_le (List.drop_eq_nil_iff.1 hrest)
    all_goals cases hexponent
  rw [hall, ← hunsigned]
  cases text with
  | nil => rfl
  | cons first rest =>
      by_cases hminus : first = '-' <;> simp [hminus]

theorem eq_numeral_of_ofWritten {text : List Char} (h : IsNumber text) {n : Int}
    (hn : JsonNumber.ofWritten text = some (.integer n)) :
    (JsonNumber.integer n).IsWord ∧ text = (toString n).toList := by
  rw [← writeNumber_integer]
  simp only [JsonNumber.ofWritten, Bool.and_eq_true, decide_eq_true_eq, Option.isNone_iff_eq_none,
    Bool.not_eq_true'] at hn
  split at hn
  · next hparts =>
      obtain ⟨⟨⟨hfraction, hexponent⟩, hnegative⟩, hsize⟩ := hparts
      obtain rfl : ((JsonNumber.digitsValue (JsonNumber.parts text).whole : Nat) : Int) = n := by
        simpa using hn
      obtain ⟨heq, hdigits⟩ := parts_eq hfraction hexponent
      rw [hnegative] at heq
      have hnumeral := (heq ▸ h).toDigits_of_digits (.inl rfl) hdigits
      have hword : JsonNumber.digitsValue (JsonNumber.parts text).whole < 0x10000000000000000 :=
        hsize
      refine ⟨⟨by omega, by omega⟩, ?_⟩
      rw [JsonNumber.writeNumber_ofNat, hnumeral]
      exact heq
  split at hn
  · next hparts =>
      obtain ⟨⟨⟨⟨hfraction, hexponent⟩, hnegative⟩, hpos⟩, hsize⟩ := hparts
      obtain rfl : (-(JsonNumber.digitsValue (JsonNumber.parts text).whole : Nat) : Int) = n := by
        simpa using hn
      obtain ⟨heq, hdigits⟩ := parts_eq hfraction hexponent
      rw [hnegative] at heq
      have hnumeral := (heq ▸ h).toDigits_of_digits (.inr rfl) hdigits
      refine ⟨⟨by omega, by omega⟩, ?_⟩
      rw [JsonNumber.writeNumber_negative (by omega), hnumeral]
      exact heq
  · split at hn <;> cases hn

end HtmlIds.Reading
