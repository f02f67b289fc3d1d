import HtmlIds.Text.Search

namespace HtmlIds

def Ascending (numbers : Array Nat) : Prop :=
  ∀ (i j a b : Nat), i < j → numbers[i]? = some a → numbers[j]? = some b → a < b

structure LastNotAbove (numbers : Array Nat) (value place : Nat) : Prop where
  lt_size : place < numbers.size
  not_above : place = 0 ∨ ∃ number, numbers[place]? = some number ∧ number ≤ value
  above : ∀ i number, place < i → numbers[i]? = some number → value < number

variable {numbers : Array Nat} {value : Nat}

theorem Ascending.le (h : Ascending numbers) {i j a b : Nat} (hle : i ≤ j)
    (ha : numbers[i]? = some a) (hb : numbers[j]? = some b) : a ≤ b := by
  rcases Nat.lt_or_eq_of_le hle with hlt | rfl
  · exact Nat.le_of_lt (h i j a b hlt ha hb)
  · exact Nat.le_of_eq (Option.some.inj (ha.symm.trans hb))

theorem lastNotAbove_narrow (h : Ascending numbers) {first size : Nat} (hpos : 0 < size)
    (hsize : first + size ≤ numbers.size)
    (hfirst : first = 0 ∨ ∃ number, numbers[first]? = some number ∧ number ≤ value)
    (habove : ∀ i number, first + size ≤ i → numbers[i]? = some number → value < number) :
    LastNotAbove numbers value (narrow numbers value first size) := by
  -- the places that are left begin with a number not above `value`, and all after them are above it
  fun_induction narrow numbers value first size with
  | case1 first size hle =>
      exact ⟨by omega, hfirst, fun i number hlt => habove i number (by omega)⟩
  | case2 first size hle middle hcut ih =>
      have hget : numbers[middle]? = some (numbers.getD middle 0) := by
        simp [show middle < numbers.size by omega]
      refine ih (by omega) (by omega) hfirst fun i number hi hnumber => ?_
      exact Nat.lt_of_lt_of_le hcut (h.le (by omega) hget hnumber)
  | case3 first size hle middle hcut ih =>
      have hget : numbers[middle]? = some (numbers.getD middle 0) := by
        simp [show middle < numbers.size by omega]
      refine ih (by omega) (by omega) (.inr ⟨_, hget, Nat.le_of_not_lt hcut⟩) ?_
      exact fun i number hi => habove i number (by omega)

def Locates (numbers : Array Nat) (value : Nat) : Except Nat Nat → Prop
  | .ok place => numbers[place]? = some value
  | .error place => place ≤ numbers.size ∧
    (∀ i number, i < place → numbers[i]? = some number → number < value) ∧
      ∀ i number, place ≤ i → numbers[i]? = some number → value < number

theorem locates_search (h : Ascending numbers) (value : Nat) :
    Locates numbers value (search numbers value) := by
  rcases Nat.eq_zero_or_pos numbers.size with hnil | hpos
  · have hnone (i : Nat) : numbers[i]? = none := by simp [hnil]
    simp [search, hnone, Locates]
  · have hlast : LastNotAbove numbers value (narrow numbers value 0 numbers.size) := by
      refine lastNotAbove_narrow h hpos (by omega) (.inl rfl) fun i number hle hnumber => ?_
      obtain ⟨hlt, -⟩ := Array.getElem?_eq_some_iff.1 hnumber
      omega
    generalize hplace : narrow numbers value 0 numbers.size = place at hlast
    obtain ⟨number, hnumber⟩ : ∃ number, numbers[place]? = some number :=
      ⟨_, Array.getElem?_eq_getElem hlast.lt_size⟩
    simp only [search, hplace, hnumber]
    rcases Nat.lt_trichotomy number value with hlt | rfl | hgt
    · rw [if_neg (Nat.ne_of_lt hlt), if_pos hlt]
      refine ⟨hlast.lt_size, fun i number' hi hnumber' => ?_, hlast.above⟩
      exact Nat.lt_of_le_of_lt (h.le (Nat.le_of_lt_succ hi) hnumber' hnumber) hlt
    · rw [if_pos rfl]
      exact hnumber
    · rw [if_neg (Nat.ne_of_gt hgt), if_neg (Nat.lt_asymm hgt)]
      have hzero : place = 0 := by
        rcases hlast.not_above with hzero | ⟨number', hnumber', hle⟩
        · exact hzero
        · obtain rfl := Option.some.inj (hnumber.symm.trans hnumber')
          exact absurd hgt (Nat.not_lt_of_le hle)
      subst hzero
      refine ⟨Nat.zero_le _, fun i _ hi => absurd hi (Nat.not_lt_zero i), fun i number' hi hnumber' => ?_⟩
      exact Nat.lt_of_lt_of_le hgt (h.le hi hnumber hnumber')

end HtmlIds
