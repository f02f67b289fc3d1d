import HtmlIds.Text.Blank

namespace HtmlIds

theorem isUpper_iff {c : Char} : c.isUpper = true ↔ 65 ≤ c.toNat ∧ c.toNat ≤ 90 :=
  decide_eq_true_iff

theorem isLower_iff {c : Char} : c.isLower = true ↔ 97 ≤ c.toNat ∧ c.toNat ≤ 122 :=
  Bool.and_eq_true_iff.trans (and_congr decide_eq_true_iff decide_eq_true_iff)

theorem isAlphanum_iff {c : Char} : c.isAlphanum = true ↔
    (65 ≤ c.toNat ∧ c.toNat ≤ 90 ∨ 97 ≤ c.toNat ∧ c.toNat ≤ 122) ∨
      48 ≤ c.toNat ∧ c.toNat ≤ 57 := by
  rw [← isUpper_iff, ← isLower_iff, ← Bool.or_eq_true]
  exact Bool.or_eq_true_iff.trans (or_congr_right Char.isDigit_iff_toNat)

theorem toNat_toLower (c : Char) :
    c.toLower.toNat = if 65 ≤ c.toNat ∧ c.toNat ≤ 90 then c.toNat + 32 else c.toNat := by
  split
  · next h =>
      have hlower : c.toLower.val = c.val + ('a'.val - 'A'.val) := congrArg Char.val (dif_pos h)
      have hsub : ('a'.val - 'A'.val).toNat = 32 := rfl
      change c.toLower.val.toNat = c.val.toNat + 32
      change 65 ≤ c.val.toNat ∧ c.val.toNat ≤ 90 at h
      rw [hlower, UInt32.toNat_add, hsub, Nat.mod_eq_of_lt (by omega)]
  · next h => exact congrArg Char.toNat (dif_neg h)

theorem toLower_eq_iff {c small capital : Char}
    (hcapital : 65 ≤ capital.toNat ∧ capital.toNat ≤ 90)
    (hsmall : small.toNat = capital.toNat + 32) :
    c.toLower = small ↔ c = small ∨ c = capital := by
  simp only [← Char.toNat_inj, toNat_toLower]
  split <;> omega

theorem toLower_eq_iff_of_not_alpha {c sign : Char}
    (hcapital : ¬(65 ≤ sign.toNat ∧ sign.toNat ≤ 90))
    (hsmall : ¬(97 ≤ sign.toNat ∧ sign.toNat ≤ 122)) : c.toLower = sign ↔ c = sign := by
  simp only [← Char.toNat_inj, toNat_toLower]
  split <;> omega

end HtmlIds
