import HtmlIds.Text.LineTable

namespace HtmlIds

@[simp] theorem utf8Length_nil : utf8Length [] = 0 := rfl

@[simp] theorem utf8Length_cons (c : Char) (rest : List Char) :
    utf8Length (c :: rest) = c.utf8Size + utf8Length rest := rfl

@[simp] theorem utf8Length_append (front back : List Char) :
    utf8Length (front ++ back) = utf8Length front + utf8Length back := by
  induction front with
  | nil => simp
  | cons c front ih => simp [ih, Nat.add_assoc]

theorem utf8Length_take_add_drop (n : Nat) (text : List Char) :
    utf8Length (text.take n) + utf8Length (text.drop n) = utf8Length text := by
  rw [← utf8Length_append, List.take_append_drop]

theorem utf8Length_pos {text : List Char} (h : text ≠ []) : 0 < utf8Length text := by
  cases text with
  | nil => exact absurd rfl h
  | cons c rest => exact Nat.add_pos_left c.utf8Size_pos _

theorem utf8Length_mono {front text : List Char} (h : front <+: text) :
    utf8Length front ≤ utf8Length text := by
  obtain ⟨back, rfl⟩ := h
  rw [utf8Length_append]
  exact Nat.le_add_right ..

theorem prefix_of_utf8Length_le {front front' text : List Char} (h : front <+: text)
    (h' : front' <+: text) (hle : utf8Length front ≤ utf8Length front') : front <+: front' := by
  rcases List.prefix_or_prefix_of_prefix h h' with hprefix | ⟨back, rfl⟩
  · exact hprefix
  · rw [utf8Length_append] at hle
    by_cases hback : back = []
    · simp [hback]
    · have hpos := utf8Length_pos hback
      omega

theorem exists_excess (text : List Char) (offset : Nat) :
    ∃ before after excess, text = before ++ after ∧ offset = utf8Length before + excess ∧
      ∀ c ∈ after.head?, excess < c.utf8Size := by
  induction text generalizing offset with
  | nil => exact ⟨[], [], offset, rfl, (Nat.zero_add offset).symm, nofun⟩
  | cons c rest ih =>
      rcases Nat.lt_or_ge offset c.utf8Size with hlt | hge
      · refine ⟨[], c :: rest, offset, rfl, (Nat.zero_add offset).symm, ?_⟩
        rintro c' hc'
        exact Option.some.inj hc' ▸ hlt
      · obtain ⟨before, after, excess, rfl, heq, hexcess⟩ := ih (offset - c.utf8Size)
        refine ⟨c :: before, after, excess, rfl, ?_, hexcess⟩
        rw [utf8Length_cons]
        omega

theorem takeBytes_append (before : List Char) {after : List Char} {excess : Nat}
    (h : ∀ c ∈ after.head?, excess < c.utf8Size) :
    takeBytes (before ++ after) (utf8Length before + excess) = before := by
  induction before with
  | nil =>
      cases after with
      | nil => rfl
      | cons c after =>
          have hexcess : utf8Length [] + excess < c.utf8Size := by simpa using h c rfl
          exact if_pos hexcess
  | cons c before ih =>
      have hsize : utf8Length (c :: before) + excess - c.utf8Size = utf8Length before + excess := by
        rw [utf8Length_cons]
        omega
      have hle : ¬utf8Length (c :: before) + excess < c.utf8Size := by
        rw [utf8Length_cons]
        omega
      rw [List.cons_append, takeBytes, if_neg hle, hsize, ih]

theorem dropBytes_append (front back : List Char) :
    dropBytes (front ++ back) (utf8Length front) = back := by
  induction front with
  | nil =>
      cases back with
      | nil => rfl
      | cons c back => exact if_pos c.utf8Size_pos
  | cons c front ih =>
      have hsize : utf8Length (c :: front) - c.utf8Size = utf8Length front := by simp
      have hle : ¬utf8Length (c :: front) < c.utf8Size := by simp
      rw [List.cons_append, dropBytes, if_neg hle, hsize, ih]

def byteOffset (text : List Char) (i : Nat) : Nat :=
  utf8Length (text.take i)

theorem byteOffset_add (text : List Char) (i n : Nat) :
    byteOffset text (i + n) = byteOffset text i + utf8Length ((text.drop i).take n) := by
  simp [byteOffset, List.take_add]

theorem byteOffset_succ {text : List Char} {i : Nat} {c : Char} (h : text[i]? = some c) :
    byteOffset text (i + 1) = byteOffset text i + c.utf8Size := by
  rw [byteOffset_add, List.take_one, List.head?_drop, h]
  simp

theorem byteOffset_append_of_le {text : List Char} {i : Nat} (h : i ≤ text.length)
    (more : List Char) : byteOffset (text ++ more) i = byteOffset text i := by
  rw [byteOffset, byteOffset, List.take_append_of_le_length h]

theorem byteOffset_mono (text : List Char) {i j : Nat} (h : i ≤ j) :
    byteOffset text i ≤ byteOffset text j := by
  obtain ⟨n, rfl⟩ := Nat.exists_eq_add_of_le h
  rw [byteOffset_add]
  exact Nat.le_add_right ..

theorem byteOffset_lt {text : List Char} {i j : Nat} (h : i < j) (hi : i < text.length) :
    byteOffset text i < byteOffset text j := by
  have hsucc := byteOffset_succ (List.getElem?_eq_getElem hi)
  have hsize := Char.utf8Size_pos text[i]
  have hmono : byteOffset text (i + 1) ≤ byteOffset text j := byteOffset_mono text h
  omega

end HtmlIds
