import HtmlIds.Proofs.Json.Document
import HtmlIds.Proofs.OrderedMap

namespace HtmlIds

def NoControl (text : List Char) : Prop :=
  ∀ c ∈ text, 32 ≤ c.toNat

instance (text : List Char) : Decidable (NoControl text) :=
  List.decidableBAll (fun c : Char => 32 ≤ c.toNat) text

theorem NoControl.nil : NoControl [] :=
  List.forall_mem_nil _

theorem NoControl.cons {c : Char} (hc : 32 ≤ c.toNat) {rest : List Char} (h : NoControl rest) :
    NoControl (c :: rest) :=
  List.forall_mem_cons.2 ⟨hc, h⟩

theorem NoControl.append {front back : List Char} (h : NoControl front) (h' : NoControl back) :
    NoControl (front ++ back) :=
  List.forall_mem_append.2 ⟨h, h'⟩

theorem NoControl.not_mem {text : List Char} (h : NoControl text) {c : Char} (hc : c.toNat < 32) :
    c ∉ text :=
  fun hmem => absurd (h c hmem) (Nat.not_le_of_lt hc)

theorem noControl_of_digits {text : List Char} (h : ∀ c ∈ text, c.isDigit = true) :
    NoControl text :=
  fun c hc => Nat.le_trans (by decide) (Char.isDigit_iff_toNat.1 (h c hc)).1

namespace Json

theorem ofMembers_of_perm {members ordered : List (String × Json)} (h : members.Perm ordered)
    (hascending : ordered.Pairwise fun a b => a.1 < b.1) : ofMembers members = .object ordered := by
  have hmap : OrderedMap.ofList members = ⟨ordered, hascending⟩ := OrderedMap.ofList_of_perm h
  rw [ofMembers, hmap]

theorem ofMembers_of_ascending {members : List (String × Json)}
    (h : members.Pairwise fun a b => a.1 < b.1) : ofMembers members = .object members :=
  ofMembers_of_perm (.refl members) h

section Written

theorem noControl_escape (c : Char) : NoControl (escape c) := by
  rcases Reading.escape_cases c with ⟨letter, heq, hletter⟩ | ⟨hlow, heq⟩ | ⟨hlow, -, -, heq⟩
  · have hmem : letter ∈ ['"', '\\', '/', 'b', 'f', 'n', 'r', 't'] := by
      by_contra hnot
      simp only [List.mem_cons, List.not_mem_nil, or_false, not_or] at hnot
      simp [Reading.unescape?, hnot] at hletter
    have hcodes : NoControl ['"', '\\', '/', 'b', 'f', 'n', 'r', 't'] := by decide
    rw [heq]
    exact .cons (by decide) (.cons (hcodes letter hmem) .nil)
  · have hdigits : ∀ n < 16, 32 ≤ (hexDigit n).toNat := by decide
    have hhead : NoControl ['\\', 'u', '0', '0'] := by decide
    rw [heq]
    exact hhead.append (.cons (hdigits _ (by omega)) (.cons (hdigits _ (by omega)) .nil))
  · rw [heq]
    exact .cons (Nat.le_of_not_lt hlow) .nil

theorem noControl_writeString (text : String) : NoControl (writeString text) := by
  have hbody : NoControl (text.toList.flatMap escape) := by
    intro c hc
    obtain ⟨source, -, hmem⟩ := List.mem_flatMap.1 hc
    exact noControl_escape source c hmem
  exact .cons (by decide) (hbody.append (.cons (by decide) .nil))

theorem noControl_writeNumber {number : JsonNumber} (h : number.IsWord) :
    NoControl (writeNumber number) := by
  rcases h.cases with ⟨n, rfl, -⟩ | ⟨n, rfl, hn, -⟩
  · rw [JsonNumber.writeNumber_ofNat]
    exact noControl_of_digits fun _ => JsonNumber.isDigit_of_mem_toDigits
  · rw [JsonNumber.writeNumber_negative hn]
    exact .cons (by decide) (noControl_of_digits fun _ => JsonNumber.isDigit_of_mem_toDigits)

mutual

theorem noControl_write : ∀ value : Json, value.IsExact → NoControl value.write
  | .null, _ | .bool true, _ | .bool false, _ => by decide
  | .number _, h => noControl_writeNumber h
  | .string text, _ => noControl_writeString text
  | .array items, h =>
    .cons (by decide) ((noControl_writeItems items h).append (.cons (by decide) .nil))
  | .object members, h =>
    .cons (by decide) ((noControl_writeMembers members h).append (.cons (by decide) .nil))

theorem noControl_writeItems : ∀ items : List Json, AreExact items → NoControl (writeItems items)
  | [], _ => .nil
  | [item], h => noControl_write item h.1
  | item :: next :: rest, h =>
    (noControl_write item h.1).append
      (.cons (by decide) (noControl_writeItems (next :: rest) h.2))

theorem noControl_writeMembers : ∀ members : List (String × Json), HaveExact members →
    NoControl (writeMembers members)
  | [], _ => .nil
  | [(key, value)], h =>
    (noControl_writeString key).append (.cons (by decide) (noControl_write value h.1))
  | (key, value) :: next :: rest, h => by
      have hvalue := (noControl_write value h.1).append
        (.cons (c := ',') (by decide) (noControl_writeMembers (next :: rest) h.2))
      have hmember := (noControl_writeString key).append (.cons (c := ':') (by decide) hvalue)
      simpa [writeMembers] using hmember

end

end Written

section Read

open Reading

mutual

theorem eq_of_ofJson_eq : ∀ {a b : Json}, ofJson a = ofJson b → a = b
  | .null, b, h => by cases b <;> simp_all [ofJson]
  | .bool _, b, h => by cases b <;> simp_all [ofJson]
  | .number _, b, h => by cases b <;> simp_all [ofJson]
  | .string _, b, h => by cases b <;> simp_all [ofJson]
  | .array items, b, h => by
      cases b with
      | array items' => rw [eq_of_ofItems_eq (Reading.array.inj h).1]
      | _ => cases h
  | .object members, b, h => by
      cases b with
      | object members' => rw [eq_of_ofMembers_eq (Reading.object.inj h).1]
      | _ => cases h

theorem eq_of_ofItems_eq : ∀ {a b : List Json}, ofItems a = ofItems b → a = b
  | [], [], _ => rfl
  | item :: rest, item' :: rest', h => by
      obtain ⟨hitem, hrest⟩ := List.cons.inj h
      rw [eq_of_ofJson_eq hitem, eq_of_ofItems_eq hrest]

theorem eq_of_ofMembers_eq : ∀ {a b : List (String × Json)},
    Reading.ofMembers a = Reading.ofMembers b → a = b
  | [], [], _ => rfl
  | (key, value) :: rest, (key', value') :: rest', h => by
      obtain ⟨hmember, hrest⟩ := List.cons.inj h
      obtain ⟨hkey, hvalue⟩ := Prod.mk.inj hmember
      rw [Option.some.inj hkey, eq_of_ofJson_eq hvalue, eq_of_ofMembers_eq hrest]

end

theorem parse_write_eq_ok_iff {value : Json} (hexact : value.IsExact)
    (hsettled : value.settled = value) {before after : List Char} (hbefore : Blank before)
    (hafter : Blank after) {result : Json} :
    parse (before ++ value.write ++ after) = .ok result ↔
      result = value ∧ value.nesting ≤ nestingLimit := by
  rw [parse_eq_ok_iff]
  constructor
  · rintro ⟨document, hdocument, hnesting, rfl⟩
    have hvalue := PaddedSpelled.mk hbefore (spelled_write value hexact) hafter
    have hread := (ofText_of_spelled hdocument).symm.trans (ofText_of_spelled hvalue)
    obtain rfl := eq_of_ofJson_eq (Whole.mk.inj hread).1
    exact ⟨hsettled, hnesting⟩
  · rintro ⟨rfl, hnesting⟩
    exact isText_write hexact hnesting hsettled hbefore hafter

end Read

end Json

end HtmlIds
