import HtmlIds.Json.Decoder
import HtmlIds.Proofs.Json.Numeral

namespace HtmlIds.Reading

def Blank (text : List Char) : Prop :=
  ∀ c ∈ text, isSpace c = true

inductive Piece where
  | char : Char → Piece
  | unit : Nat → Piece
deriving DecidableEq, Repr

def hexNumber? (digits : List Char) : Option Nat :=
  digits.foldl (fun value c => value.bind fun high => (hexValue? c).map (16 * high + ·)) (some 0)

inductive Piece.Spelled : Piece → List Char → Prop
  | plain {c : Char} : ¬c.toNat < 32 → c ≠ '"' → c ≠ '\\' → Spelled (.char c) [c]
  | escaped {letter c : Char} : unescape? letter = some c → Spelled (.char c) ['\\', letter]
  | hex {digits : List Char} {unit : Nat} : digits.length = 4 → hexNumber? digits = some unit →
      Spelled (.unit unit) ('\\' :: 'u' :: digits)

inductive PiecesSpelled : List Piece → List Char → Prop
  | nil : PiecesSpelled [] []
  | concat {pieces : List Piece} {body : List Char} {piece : Piece} {text : List Char} :
      PiecesSpelled pieces body → piece.Spelled text →
        PiecesSpelled (pieces ++ [piece]) (body ++ text)

def isHighHalf (unit : Nat) : Bool :=
  0xD800 ≤ unit && unit < 0xDC00

def isLowHalf (unit : Nat) : Bool :=
  0xDC00 ≤ unit && unit < 0xE000

/-- The text that pieces name, where `high` is a first half whose other half must come next. Halves
that stand alone name nothing. -/
def textOf? : Option Nat → List Piece → Option (List Char)
  | none, [] => some []
  | none, .char c :: rest => (textOf? none rest).map (c :: ·)
  | none, .unit unit :: rest =>
    if isHighHalf unit then textOf? (some unit) rest
    else if isLowHalf unit then none
    else (textOf? none rest).map (Char.ofNat unit :: ·)
  | some high, .unit unit :: rest =>
    if isLowHalf unit then
      (textOf? none rest).map
        (Char.ofNat (0x10000 + (high - 0xD800) * 0x400 + (unit - 0xDC00)) :: ·)
    else none
  | some _, _ => none

def nameOf? (pieces : List Piece) : Option String :=
  (textOf? none pieces).map String.ofList

def ofPieces (pieces : List Piece) : Reading :=
  match nameOf? pieces with
  | some text => .string text
  | none => .unreadable

def KeySpelled (key : Option String) (text : List Char) : Prop :=
  ∃ before pieces body after, Blank before ∧ PiecesSpelled pieces body ∧ Blank after ∧
    key = nameOf? pieces ∧ text = before ++ '"' :: (body ++ '"' :: after)

mutual

inductive Spelled : Reading → List Char → Prop
  | null : Spelled .null "null".toList
  | true : Spelled (.bool true) "true".toList
  | false : Spelled (.bool false) "false".toList
  | integer {n : Int} : (JsonNumber.integer n).IsWord →
      Spelled (.number (.integer n)) (toString n).toList
  | inexact {text : List Char} : IsNumber text → (∀ n, ofNumber text ≠ .number (.integer n)) →
      Spelled (ofNumber text) text
  | string {pieces : List Piece} {body : List Char} :
      PiecesSpelled pieces body → Spelled (ofPieces pieces) ('"' :: (body ++ ['"']))
  | emptyArray {gap : List Char} : Blank gap → Spelled (.array [] none) ('[' :: (gap ++ [']']))
  | array {items : List Reading} {body : List Char} :
      ItemsSpelled items body → Spelled (.array items none) ('[' :: (body ++ [']']))
  | emptyObject {gap : List Char} : Blank gap → Spelled (.object [] none) ('{' :: (gap ++ ['}']))
  | object {members : List (Option String × Reading)} {body : List Char} :
      MembersSpelled members body → Spelled (.object members none) ('{' :: (body ++ ['}']))

inductive PaddedSpelled : Reading → List Char → Prop
  | mk {value : Reading} {before text after : List Char} :
      Blank before → Spelled value text → Blank after →
        PaddedSpelled value (before ++ text ++ after)

inductive ItemsSpelled : List Reading → List Char → Prop
  | one {value : Reading} {text : List Char} : PaddedSpelled value text → ItemsSpelled [value] text
  | more {items : List Reading} {body : List Char} {value : Reading} {text : List Char} :
      ItemsSpelled items body → PaddedSpelled value text →
        ItemsSpelled (items ++ [value]) (body ++ ',' :: text)

inductive MembersSpelled : List (Option String × Reading) → List Char → Prop
  | one {key : Option String} {value : Reading} {keyText text : List Char} :
      KeySpelled key keyText → PaddedSpelled value text →
        MembersSpelled [(key, value)] (keyText ++ ':' :: text)
  | more {members : List (Option String × Reading)} {body : List Char} {key : Option String}
      {value : Reading} {keyText text : List Char} :
      MembersSpelled members body → KeySpelled key keyText → PaddedSpelled value text →
        MembersSpelled (members ++ [(key, value)]) (body ++ ',' :: (keyText ++ ':' :: text))

end

theorem Blank.nil : Blank [] := fun _ h => absurd h List.not_mem_nil

theorem Blank.concat {text : List Char} (h : Blank text) {c : Char} (hc : isSpace c = true) :
    Blank (text ++ [c]) := by
  intro c' hc'
  rcases List.mem_append.1 hc' with hmem | hmem
  · exact h c' hmem
  · exact List.mem_singleton.1 hmem ▸ hc

theorem PiecesSpelled.cons {piece : Piece} {text : List Char} (h : piece.Spelled text)
    {pieces : List Piece} {body : List Char} (hpieces : PiecesSpelled pieces body) :
    PiecesSpelled (piece :: pieces) (text ++ body) := by
  induction hpieces with
  | nil => simpa using PiecesSpelled.concat .nil h
  | concat _ hlast ih => simpa using ih.concat hlast

theorem ItemsSpelled.cons {value : Reading} {text : List Char} (h : PaddedSpelled value text) :
    ∀ {items : List Reading} {body : List Char}, ItemsSpelled items body →
      ItemsSpelled (value :: items) (text ++ ',' :: body)
  | _, _, .one h' => .more (.one h) h'
  | _, _, .more hitems h' => by
      have hrest := ItemsSpelled.more (ItemsSpelled.cons h hitems) h'
      simpa using hrest

theorem MembersSpelled.cons {key : Option String} {value : Reading} {keyText text : List Char}
    (hkey : KeySpelled key keyText) (h : PaddedSpelled value text) :
    ∀ {members : List (Option String × Reading)} {body : List Char}, MembersSpelled members body →
      MembersSpelled ((key, value) :: members) (keyText ++ ':' :: (text ++ ',' :: body))
  | _, _, .one hkey' h' => by
      have hrest := MembersSpelled.more (MembersSpelled.one hkey h) hkey' h'
      simpa using hrest
  | _, _, .more hmembers hkey' h' => by
      have hrest := MembersSpelled.more (MembersSpelled.cons hkey h hmembers) hkey' h'
      simpa using hrest

theorem ofNumber_of_isWord {n : Int} (h : (JsonNumber.integer n).IsWord) :
    ofNumber (toString n).toList = .number (.integer n) := by
  rw [← writeNumber_integer, ofNumber, JsonNumber.ofWritten_writeNumber h]

theorem spelled_ofNumber {text : List Char} (h : IsNumber text) : Spelled (ofNumber text) text := by
  by_cases hexact : ∃ n, JsonNumber.ofWritten text = some (.integer n)
  · obtain ⟨n, hn⟩ := hexact
    obtain ⟨hword, htext⟩ := eq_numeral_of_ofWritten h hn
    rw [ofNumber, hn, htext]
    exact .integer hword
  · refine .inexact h fun n hof => hexact ⟨n, ?_⟩
    unfold ofNumber at hof
    split at hof
    · next number hnumber =>
        cases hof
        exact hnumber
    · cases hof

theorem skipItems?_append (items more : List Reading) :
    skipItems? (items ++ more) = (skipItems? items).or (skipItems? more) := by
  induction items with
  | nil => rfl
  | cons item rest ih => rw [List.cons_append, skipItems?, ih, skipItems?, Option.or_assoc]

theorem skipMembers?_append (members more : List (Option String × Reading)) :
    skipMembers? (members ++ more) = (skipMembers? members).or (skipMembers? more) := by
  induction members with
  | nil => rfl
  | cons member rest ih =>
      obtain ⟨key, value⟩ := member
      rw [List.cons_append, skipMembers?, ih, skipMembers?, Option.or_assoc]

mutual

theorem Spelled.skipFlaw? : ∀ {value : Reading} {text : List Char},
    Spelled value text → value.skipFlaw? = none
  | _, _, .null => rfl
  | _, _, .true => rfl
  | _, _, .false => rfl
  | _, _, .integer _ => rfl
  | _, text, .inexact _ _ => by
      unfold ofNumber
      split <;> rfl
  | _, _, .string _ => by
      unfold ofPieces
      split <;> rfl
  | _, _, .emptyArray _ => rfl
  | _, _, .array h => by
      rw [Reading.skipFlaw?, h.skipItems?]
      rfl
  | _, _, .emptyObject _ => rfl
  | _, _, .object h => by
      rw [Reading.skipFlaw?, h.skipMembers?]
      rfl

theorem PaddedSpelled.skipFlaw? : ∀ {value : Reading} {text : List Char},
    PaddedSpelled value text → value.skipFlaw? = none
  | _, _, .mk _ h _ => h.skipFlaw?

theorem ItemsSpelled.skipItems? : ∀ {items : List Reading} {body : List Char},
    ItemsSpelled items body → skipItems? items = none
  | _, _, .one h => by
      rw [Reading.skipItems?, h.skipFlaw?]
      rfl
  | _, _, .more hitems h => by
      rw [skipItems?_append, hitems.skipItems?, Reading.skipItems?, h.skipFlaw?]
      rfl

theorem MembersSpelled.skipMembers? : ∀ {members : List (Option String × Reading)}
    {body : List Char}, MembersSpelled members body → skipMembers? members = none
  | _, _, .one _ h => by
      rw [Reading.skipMembers?, h.skipFlaw?]
      rfl
  | _, _, .more hmembers _ h => by
      rw [skipMembers?_append, hmembers.skipMembers?, Reading.skipMembers?, h.skipFlaw?]
      rfl

end

end HtmlIds.Reading
