import HtmlIds.Proofs.Json.Decoder
import HtmlIds.Proofs.Json.RoundTrip

namespace HtmlIds.Json

mutual

def nesting : Json → Nat
  | .array items => itemsNesting items + 1
  | .object members => membersNesting members + 1
  | _ => 0

def itemsNesting : List Json → Nat
  | [] => 0
  | item :: rest => max item.nesting (itemsNesting rest)

def membersNesting : List (String × Json) → Nat
  | [] => 0
  | (_, value) :: rest => max value.nesting (membersNesting rest)

end

mutual

def settled : Json → Json
  | .array items => .array (settledItems items)
  | .object members => ofMembers (settledMembers members)
  | value => value

def settledItems : List Json → List Json
  | [] => []
  | item :: rest => item.settled :: settledItems rest

def settledMembers : List (String × Json) → List (String × Json)
  | [] => []
  | (key, value) :: rest => (key, value.settled) :: settledMembers rest

end

def IsText (value : Json) (text : List Char) : Prop :=
  ∃ document : Json, Reading.PaddedSpelled (Reading.ofJson document) text ∧
    document.nesting ≤ nestingLimit ∧ document.settled = value

section Decoding

open Reading

mutual

theorem toJson_ofJson : ∀ (document : Json) {depth : Nat}, document.nesting ≤ depth →
    (ofJson document).toJson depth = .ok document.settled
  | .null, _, _ => rfl
  | .bool _, _, _ => rfl
  | .number _, _, _ => rfl
  | .string _, _, _ => rfl
  | .array items, depth, h => by
      have hpos : depth ≠ 0 := Nat.ne_of_gt (Nat.zero_lt_of_lt h)
      have hitems := toItems_ofItems items (Nat.le_sub_one_of_lt h)
      simp only [ofJson, toJson, if_neg hpos, hitems, settled]
  | .object members, depth, h => by
      have hpos : depth ≠ 0 := Nat.ne_of_gt (Nat.zero_lt_of_lt h)
      have hmembers := toMembers_ofMembers members (Nat.le_sub_one_of_lt h)
      simp only [ofJson, toJson, if_neg hpos, hmembers, settled]

theorem toItems_ofItems : ∀ (items : List Json) {depth : Nat}, itemsNesting items ≤ depth →
    toItems depth (ofItems items) = .ok (settledItems items)
  | [], _, _ => rfl
  | item :: rest, depth, h => by
      obtain ⟨hitem, hrest⟩ := Nat.max_le.1 h
      rw [ofItems, toItems, toJson_ofJson item hitem, toItems_ofItems rest hrest]
      rfl

theorem toMembers_ofMembers : ∀ (members : List (String × Json)) {depth : Nat},
    membersNesting members ≤ depth →
      toMembers depth (Reading.ofMembers members) = .ok (settledMembers members)
  | [], _, _ => rfl
  | (key, value) :: rest, depth, h => by
      obtain ⟨hvalue, hrest⟩ := Nat.max_le.1 h
      rw [Reading.ofMembers, toMembers, toJson_ofJson value hvalue, toMembers_ofMembers rest hrest]
      rfl

end

mutual

theorem exists_document : ∀ (reading : Reading) {depth : Nat} {value : Json},
    reading.toJson depth = .ok value →
      ∃ document : Json, reading = ofJson document ∧ document.nesting ≤ depth ∧ document.settled = value
  | .null, _, _, h => ⟨.null, rfl, Nat.zero_le _, Except.ok.inj h⟩
  | .bool b, _, _, h => ⟨.bool b, rfl, Nat.zero_le _, Except.ok.inj h⟩
  | .number n, _, _, h => ⟨.number n, rfl, Nat.zero_le _, Except.ok.inj h⟩
  | .string text, _, _, h => ⟨.string text, rfl, Nat.zero_le _, Except.ok.inj h⟩
  | .unreadable, _, _, h => by cases h
  | .stopped _, _, _, h => by cases h
  | .array items stop, depth, value, h => by
      simp only [toJson] at h
      split at h
      · cases h
      split at h
      · cases h
      · cases h
      · next hpos _ _ values hitems =>
          obtain ⟨documents, rfl, hnesting, rfl⟩ := exists_documents items hitems
          exact ⟨.array documents, rfl, by rw [nesting]; omega, Except.ok.inj h⟩
  | .object members stop, depth, value, h => by
      simp only [toJson] at h
      split at h
      · cases h
      split at h
      · cases h
      · cases h
      · next hpos _ _ values hmembers =>
          obtain ⟨documents, rfl, hnesting, rfl⟩ := exists_memberDocuments members hmembers
          exact ⟨.object documents, rfl, by rw [nesting]; omega, Except.ok.inj h⟩

theorem exists_documents : ∀ (items : List Reading) {depth : Nat} {values : List Json},
    toItems depth items = .ok values →
      ∃ documents, items = ofItems documents ∧ itemsNesting documents ≤ depth ∧
        settledItems documents = values
  | [], _, _, h => ⟨[], rfl, Nat.zero_le _, Except.ok.inj h⟩
  | item :: rest, depth, values, h => by
      simp only [toItems] at h
      split at h
      · cases h
      · next value hvalue =>
          obtain ⟨others, hothers, rfl⟩ := map_eq_ok_iff.1 h
          obtain ⟨document, rfl, hnesting, rfl⟩ := exists_document item hvalue
          obtain ⟨documents, rfl, hmore, rfl⟩ := exists_documents rest hothers
          exact ⟨document :: documents, rfl, Nat.max_le.2 ⟨hnesting, hmore⟩, rfl⟩

theorem exists_memberDocuments : ∀ (members : List (Option String × Reading)) {depth : Nat}
    {values : List (String × Json)}, toMembers depth members = .ok values →
      ∃ documents, members = Reading.ofMembers documents ∧ membersNesting documents ≤ depth ∧
        settledMembers documents = values
  | [], _, _, h => ⟨[], rfl, Nat.zero_le _, Except.ok.inj h⟩
  | (none, _) :: _, _, _, h => by cases h
  | (some key, member) :: rest, depth, values, h => by
      simp only [toMembers] at h
      split at h
      · cases h
      · next value hvalue =>
          obtain ⟨others, hothers, rfl⟩ := map_eq_ok_iff.1 h
          obtain ⟨document, rfl, hnesting, rfl⟩ := exists_document member hvalue
          obtain ⟨documents, rfl, hmore, rfl⟩ := exists_memberDocuments rest hothers
          exact ⟨(key, document) :: documents, rfl, Nat.max_le.2 ⟨hnesting, hmore⟩, rfl⟩

end

theorem parse_eq_ok_iff {value : Json} {text : List Char} :
    Json.parse text = .ok value ↔ value.IsText text := by
  constructor
  · intro h
    cases hwhole : ofText text with
    | mk reading trailing =>
        simp only [Json.parse, hwhole] at h
        split at h
        · cases h
        · cases h
        · next hvalue =>
            obtain rfl := Except.ok.inj h
            obtain ⟨document, rfl, hnesting, rfl⟩ := exists_document reading hvalue
            exact ⟨document, ofText_eq_iff.1 ⟨hwhole, skipFlaw?_ofJson document⟩, hnesting, rfl⟩
  · rintro ⟨document, hspelled, hnesting, rfl⟩
    rw [Json.parse, ofText_of_spelled hspelled, toJson_ofJson document hnesting]

end Decoding

theorem isText_write {value : Json} (hexact : value.IsExact) (hnesting : value.nesting ≤ nestingLimit)
    (hsettled : value.settled = value) {before after : List Char} (hbefore : Reading.Blank before)
    (hafter : Reading.Blank after) : value.IsText (before ++ value.write ++ after) :=
  ⟨value, .mk hbefore (Reading.spelled_write value hexact) hafter, hnesting, hsettled⟩

end HtmlIds.Json
