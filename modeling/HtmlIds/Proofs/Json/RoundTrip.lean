import HtmlIds.Proofs.Json.Reading

namespace HtmlIds

mutual

def Json.IsExact : Json → Prop
  | .null => True
  | .bool _ => True
  | .number n => n.IsWord
  | .string _ => True
  | .array items => Json.AreExact items
  | .object members => Json.HaveExact members

def Json.AreExact : List Json → Prop
  | [] => True
  | item :: rest => item.IsExact ∧ Json.AreExact rest

def Json.HaveExact : List (String × Json) → Prop
  | [] => True
  | (_, value) :: rest => value.IsExact ∧ Json.HaveExact rest

end

theorem Json.areExact_iff {items : List Json} :
    Json.AreExact items ↔ ∀ item ∈ items, item.IsExact := by
  induction items with
  | nil => simp [Json.AreExact]
  | cons item rest ih => simp [Json.AreExact, ih]

theorem Json.haveExact_iff {members : List (String × Json)} :
    Json.HaveExact members ↔ ∀ entry ∈ members, entry.2.IsExact := by
  induction members with
  | nil => simp [Json.HaveExact]
  | cons entry rest ih => simp [Json.HaveExact, ih]

namespace Reading

theorem hexValue?_hexDigit : ∀ n < 16, hexValue? (Json.hexDigit n) = some n := by
  decide

theorem escape_cases (c : Char) :
    (∃ letter, Json.escape c = ['\\', letter] ∧ unescape? letter = some c) ∨
    (c.toNat < 32 ∧ Json.escape c =
      ['\\', 'u', '0', '0', Json.hexDigit (c.toNat / 16), Json.hexDigit (c.toNat % 16)]) ∨
    (¬c.toNat < 32 ∧ c ≠ '"' ∧ c ≠ '\\' ∧ Json.escape c = [c]) := by
  unfold Json.escape
  split
  · next h =>
      subst h
      exact .inl ⟨'"', rfl, rfl⟩
  split
  · next h =>
      subst h
      exact .inl ⟨'\\', rfl, rfl⟩
  split
  · next h =>
      subst h
      exact .inl ⟨'n', rfl, rfl⟩
  split
  · next h =>
      subst h
      exact .inl ⟨'r', rfl, rfl⟩
  split
  · next h =>
      subst h
      exact .inl ⟨'t', rfl, rfl⟩
  split
  · next h =>
      obtain rfl : c = Char.ofNat 8 := Char.toNat_inj.1 h
      exact .inl ⟨'b', rfl, rfl⟩
  split
  · next h =>
      obtain rfl : c = Char.ofNat 12 := Char.toNat_inj.1 h
      exact .inl ⟨'f', rfl, rfl⟩
  split
  · next h => exact .inr (.inl ⟨h, rfl⟩)
  · next hquote hslash _ _ _ _ _ h => exact .inr (.inr ⟨h, hquote, hslash, rfl⟩)

theorem exists_piece_escape (c : Char) : ∃ piece : Piece, piece.Spelled (Json.escape c) ∧
    ∀ rest, textOf? none (piece :: rest) = (textOf? none rest).map (c :: ·) := by
  rcases escape_cases c with ⟨letter, heq, hmeans⟩ | ⟨hlow, heq⟩ | ⟨hlow, hquote, hslash, heq⟩
  · exact ⟨.char c, heq ▸ .escaped hmeans, fun _ => rfl⟩
  · have hhex : hexNumber? ['0', '0', Json.hexDigit (c.toNat / 16), Json.hexDigit (c.toNat % 16)] =
        some c.toNat := by
      have hzero : hexValue? '0' = some 0 := rfl
      have hunit : 16 * (c.toNat / 16) + c.toNat % 16 = c.toNat := by omega
      simp [hexNumber?, hzero, hexValue?_hexDigit (c.toNat / 16) (by omega),
        hexValue?_hexDigit (c.toNat % 16) (by omega), hunit]
    have hhigh : isHighHalf c.toNat = false := by
      simp only [isHighHalf, Bool.and_eq_false_iff, decide_eq_false_iff_not]
      omega
    have hhalf : isLowHalf c.toNat = false := by
      simp only [isLowHalf, Bool.and_eq_false_iff, decide_eq_false_iff_not]
      omega
    refine ⟨.unit c.toNat, heq ▸ .hex rfl hhex, fun rest => ?_⟩
    simp [textOf?, hhigh, hhalf, Char.ofNat_toNat]
  · exact ⟨.char c, heq ▸ .plain hlow hquote hslash, fun _ => rfl⟩

theorem exists_pieces_escape (text : List Char) : ∃ pieces,
    PiecesSpelled pieces (text.flatMap Json.escape) ∧ textOf? none pieces = some text := by
  induction text with
  | nil => exact ⟨[], .nil, rfl⟩
  | cons c rest ih =>
      obtain ⟨piece, hpiece, htext⟩ := exists_piece_escape c
      obtain ⟨pieces, hpieces, hrest⟩ := ih
      refine ⟨piece :: pieces, ?_, ?_⟩
      · rw [List.flatMap_cons]
        exact .cons hpiece hpieces
      · rw [htext, hrest]
        rfl

theorem exists_pieces_writeString (text : String) : ∃ pieces body, PiecesSpelled pieces body ∧
    nameOf? pieces = some text ∧ Json.writeString text = '"' :: (body ++ ['"']) := by
  obtain ⟨pieces, hpieces, htext⟩ := exists_pieces_escape text.toList
  refine ⟨pieces, _, hpieces, ?_, rfl⟩
  rw [nameOf?, htext]
  exact congrArg some String.ofList_toList

theorem spelled_writeString (text : String) : Spelled (.string text) (Json.writeString text) := by
  obtain ⟨pieces, body, hpieces, hname, heq⟩ := exists_pieces_writeString text
  have hstring : ofPieces pieces = .string text := by rw [ofPieces, hname]
  rw [heq, ← hstring]
  exact .string hpieces

theorem keySpelled_writeString (key : String) : KeySpelled (some key) (Json.writeString key) := by
  obtain ⟨pieces, body, hpieces, hname, heq⟩ := exists_pieces_writeString key
  exact ⟨[], pieces, body, [], .nil, hpieces, .nil, hname.symm, heq⟩

theorem spelled_writeNumber {number : JsonNumber} (h : number.IsWord) :
    Spelled (.number number) (Json.writeNumber number) := by
  cases number with
  | integer n => exact .integer h
  | written text => exact h.elim

theorem Spelled.padded {value : Reading} {text : List Char} (h : Spelled value text) :
    PaddedSpelled value text := by
  simpa using PaddedSpelled.mk .nil h .nil

mutual

theorem spelled_write : ∀ value : Json, value.IsExact → Spelled (ofJson value) value.write
  | .null, _ => .null
  | .bool true, _ => .true
  | .bool false, _ => .false
  | .number _, h => spelled_writeNumber h
  | .string text, _ => spelled_writeString text
  | .array [], _ => .emptyArray .nil
  | .array (item :: rest), h => .array (itemsSpelled_write (item :: rest) h (List.cons_ne_nil _ _))
  | .object [], _ => .emptyObject .nil
  | .object (member :: rest), h =>
    .object (membersSpelled_write (member :: rest) h (List.cons_ne_nil _ _))

theorem itemsSpelled_write : ∀ items : List Json, Json.AreExact items → items ≠ [] →
    ItemsSpelled (ofItems items) (Json.writeItems items)
  | [], _, hne => absurd rfl hne
  | [item], h, _ => .one (spelled_write item h.1).padded
  | item :: next :: rest, h, _ =>
    .cons (spelled_write item h.1).padded
      (itemsSpelled_write (next :: rest) h.2 (List.cons_ne_nil _ _))

theorem membersSpelled_write : ∀ members : List (String × Json), Json.HaveExact members →
    members ≠ [] → MembersSpelled (ofMembers members) (Json.writeMembers members)
  | [], _, hne => absurd rfl hne
  | [(key, value)], h, _ => .one (keySpelled_writeString key) (spelled_write value h.1).padded
  | (key, value) :: next :: rest, h, _ => by
      have hrest := MembersSpelled.cons (keySpelled_writeString key)
        (spelled_write value h.1).padded
        (membersSpelled_write (next :: rest) h.2 (List.cons_ne_nil _ _))
      simpa [Json.writeMembers, ofMembers] using hrest

end

theorem ofText_write {value : Json} (h : value.IsExact) :
    ofText value.write = ⟨ofJson value, none⟩ :=
  ofText_of_spelled (spelled_write value h).padded

mutual

theorem skipFlaw?_ofJson : ∀ value : Json, (ofJson value).skipFlaw? = none
  | .null | .bool _ | .number _ | .string _ => rfl
  | .array items => by
      rw [ofJson, skipFlaw?, skipItems?_ofItems items]
      rfl
  | .object members => by
      rw [ofJson, skipFlaw?, skipMembers?_ofMembers members]
      rfl

theorem skipItems?_ofItems : ∀ items : List Json, skipItems? (ofItems items) = none
  | [] => rfl
  | item :: rest => by
      rw [ofItems, skipItems?, skipFlaw?_ofJson item, skipItems?_ofItems rest]
      rfl

theorem skipMembers?_ofMembers : ∀ members : List (String × Json),
    skipMembers? (ofMembers members) = none
  | [] => rfl
  | (_, value) :: rest => by
      rw [ofMembers, skipMembers?, skipFlaw?_ofJson value, skipMembers?_ofMembers rest]
      rfl

end

end Reading

end HtmlIds
