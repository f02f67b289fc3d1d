import HtmlIds.Proofs.Json.Reading
import HtmlIds.Proofs.Text.Length

namespace HtmlIds.Reading

section Numbers

def NumberPart.Spelled : NumberPart → List Char → Prop
  | .sign, text => text = [] ∨ text = ['-']
  | .zero, text => ∃ sign, (sign = [] ∨ sign = ['-']) ∧ text = sign ++ ['0']
  | .whole, text => ∃ sign digits, (sign = [] ∨ sign = ['-']) ∧ AreDigits digits ∧
      digits.head? ≠ some '0' ∧ text = sign ++ digits
  | .point, text => ∃ integer, IsInteger integer ∧ text = integer ++ ['.']
  | .fraction, text => ∃ integer digits, IsInteger integer ∧ AreDigits digits ∧
      text = integer ++ '.' :: digits
  | .mark, text => ∃ decimal mark, IsDecimal decimal ∧ (mark = 'e' ∨ mark = 'E') ∧
      text = decimal ++ [mark]
  | .markSign, text => ∃ decimal mark sign, IsDecimal decimal ∧ (mark = 'e' ∨ mark = 'E') ∧
      (sign = '+' ∨ sign = '-') ∧ text = decimal ++ [mark, sign]
  | .exponent, text => ∃ decimal mark sign digits, IsDecimal decimal ∧ (mark = 'e' ∨ mark = 'E') ∧
      (sign = [] ∨ sign = ['+'] ∨ sign = ['-']) ∧ AreDigits digits ∧
      text = decimal ++ mark :: (sign ++ digits)

theorem areDigits_singleton {c : Char} (h : c.isDigit = true) : AreDigits [c] :=
  ⟨List.cons_ne_nil c [], fun _ hc => List.mem_singleton.1 hc ▸ h⟩

theorem AreDigits.concat {digits : List Char} (h : AreDigits digits) {c : Char}
    (hc : c.isDigit = true) : AreDigits (digits ++ [c]) := by
  refine ⟨List.append_ne_nil_of_left_ne_nil h.1 [c], fun c' hc' => ?_⟩
  rcases List.mem_append.1 hc' with hmem | hmem
  · exact h.2 c' hmem
  · exact List.mem_singleton.1 hmem ▸ hc

theorem NumberPart.Spelled.isInteger {part : NumberPart} {text : List Char}
    (h : part.Spelled text) (hpart : part = .zero ∨ part = .whole) : IsInteger text := by
  rcases hpart with rfl | rfl
  · obtain ⟨sign, hsign, rfl⟩ := h
    exact ⟨sign, ['0'], hsign, .inl rfl, rfl⟩
  · obtain ⟨sign, digits, hsign, hdigits, hhead, rfl⟩ := h
    exact ⟨sign, digits, hsign, .inr ⟨hdigits, hhead⟩, rfl⟩

theorem NumberPart.Spelled.isDecimal {part : NumberPart} {text : List Char}
    (h : part.Spelled text) (hpart : part = .zero ∨ part = .whole ∨ part = .fraction) :
    IsDecimal text := by
  rcases hpart with rfl | rfl | rfl
  · exact (h.isInteger (.inl rfl)).isDecimal
  · exact (h.isInteger (.inr rfl)).isDecimal
  · obtain ⟨integer, digits, hinteger, hdigits, rfl⟩ := h
    exact ⟨integer, '.' :: digits, hinteger, .inr ⟨digits, hdigits, rfl⟩, rfl⟩

theorem NumberPart.Spelled.isNumber {part : NumberPart} {text : List Char}
    (h : part.Spelled text) (hpart : part.isWhole = true) : IsNumber text := by
  cases part with
  | zero => exact (h.isDecimal (.inl rfl)).isNumber
  | whole => exact (h.isDecimal (.inr (.inl rfl))).isNumber
  | fraction => exact (h.isDecimal (.inr (.inr rfl))).isNumber
  | exponent =>
      obtain ⟨decimal, mark, sign, digits, hdecimal, hmark, hsign, hdigits, rfl⟩ := h
      exact ⟨decimal, mark :: (sign ++ digits), hdecimal,
        .inr ⟨mark, sign, digits, hmark, hsign, hdigits, rfl⟩, rfl⟩
  | sign | point | mark | markSign => cases hpart

theorem NumberPart.Spelled.point {part : NumberPart} {text : List Char} (h : part.Spelled text)
    (hpart : part = .zero ∨ part = .whole) : NumberPart.point.Spelled (text ++ ['.']) :=
  ⟨text, h.isInteger hpart, rfl⟩

theorem NumberPart.Spelled.mark {part : NumberPart} {text : List Char} (h : part.Spelled text)
    (hpart : part = .zero ∨ part = .whole ∨ part = .fraction) {c : Char}
    (hc : (c = 'e' || c = 'E') = true) : NumberPart.mark.Spelled (text ++ [c]) :=
  ⟨text, c, h.isDecimal hpart, by simpa using hc, rfl⟩

theorem NumberPart.Spelled.step {part next : NumberPart} {text : List Char} (h : part.Spelled text)
    {c : Char} (hnext : part.next? c = some next) : next.Spelled (text ++ [c]) := by
  cases part with
  | sign =>
      simp only [next?] at hnext
      split at hnext
      · next hzero =>
          obtain rfl := Option.some.inj hnext
          exact ⟨text, h, hzero ▸ rfl⟩
      split at hnext
      · next hzero hdigit =>
          obtain rfl := Option.some.inj hnext
          exact ⟨text, [c], h, areDigits_singleton hdigit, fun e => hzero (Option.some.inj e), rfl⟩
      · cases hnext
  | zero =>
      simp only [next?] at hnext
      split at hnext
      · next hpoint =>
          obtain rfl := Option.some.inj hnext
          exact hpoint ▸ h.point (.inl rfl)
      split at hnext
      · next hmark =>
          obtain rfl := Option.some.inj hnext
          exact h.mark (.inl rfl) hmark
      · cases hnext
  | whole =>
      simp only [next?] at hnext
      split at hnext
      · next hdigit =>
          obtain rfl := Option.some.inj hnext
          obtain ⟨sign, digits, hsign, hdigits, hhead, rfl⟩ := h
          obtain ⟨first, rest, rfl⟩ := List.exists_cons_of_ne_nil hdigits.1
          exact ⟨sign, first :: rest ++ [c], hsign, hdigits.concat hdigit, hhead,
            List.append_assoc ..⟩
      split at hnext
      · next hpoint =>
          obtain rfl := Option.some.inj hnext
          exact hpoint ▸ h.point (.inr rfl)
      split at hnext
      · next hmark =>
          obtain rfl := Option.some.inj hnext
          exact h.mark (.inr (.inl rfl)) hmark
      · cases hnext
  | point =>
      simp only [next?] at hnext
      split at hnext
      · next hdigit =>
          obtain rfl := Option.some.inj hnext
          obtain ⟨integer, hinteger, rfl⟩ := h
          exact ⟨integer, [c], hinteger, areDigits_singleton hdigit, by simp⟩
      · cases hnext
  | fraction =>
      simp only [next?] at hnext
      split at hnext
      · next hdigit =>
          obtain rfl := Option.some.inj hnext
          obtain ⟨integer, digits, hinteger, hdigits, rfl⟩ := h
          exact ⟨integer, digits ++ [c], hinteger, hdigits.concat hdigit, by simp⟩
      split at hnext
      · next hmark =>
          obtain rfl := Option.some.inj hnext
          exact h.mark (.inr (.inr rfl)) hmark
      · cases hnext
  | mark =>
      obtain ⟨decimal, mark, hdecimal, hmark, rfl⟩ := h
      simp only [next?] at hnext
      split at hnext
      · next hdigit =>
          obtain rfl := Option.some.inj hnext
          exact ⟨decimal, mark, [], [c], hdecimal, hmark, .inl rfl, areDigits_singleton hdigit,
            by simp⟩
      split at hnext
      · next hsign =>
          obtain rfl := Option.some.inj hnext
          exact ⟨decimal, mark, c, hdecimal, hmark, by simpa using hsign, by simp⟩
      · cases hnext
  | markSign =>
      obtain ⟨decimal, mark, sign, hdecimal, hmark, hsign, rfl⟩ := h
      simp only [next?] at hnext
      split at hnext
      · next hdigit =>
          obtain rfl := Option.some.inj hnext
          refine ⟨decimal, mark, [sign], [c], hdecimal, hmark, .inr ?_, areDigits_singleton hdigit,
            by simp⟩
          exact hsign.imp (congrArg ([·])) (congrArg ([·]))
      · cases hnext
  | exponent =>
      obtain ⟨decimal, mark, sign, digits, hdecimal, hmark, hsign, hdigits, rfl⟩ := h
      simp only [next?] at hnext
      split at hnext
      · next hdigit =>
          obtain rfl := Option.some.inj hnext
          exact ⟨decimal, mark, sign, digits ++ [c], hdecimal, hmark, hsign, hdigits.concat hdigit,
            by simp⟩
      · cases hnext

end Numbers

section Strings

inductive Escape.Spelled : Escape → List Char → Prop
  | none : Spelled .none []
  | backslash : Spelled .backslash ['\\']
  | hex {digits : List Char} : utf8Length digits < 4 →
      Spelled (.hex (utf8Length digits) (hexNumber? digits)) ('\\' :: 'u' :: digits)

theorem utf8Length_of_hexNumber? {digits : List Char} {unit : Nat}
    (h : hexNumber? digits = some unit) : utf8Length digits = digits.length := by
  induction digits using List.reverseRecOn generalizing unit with
  | nil => rfl
  | append_singleton digits c ih =>
      rw [hexNumber?_concat] at h
      obtain ⟨high, hhigh, h⟩ := Option.bind_eq_some_iff.1 h
      obtain ⟨low, hlow, -⟩ := Option.map_eq_some_iff.1 h
      rw [utf8Length_append, ih hhigh, List.length_append]
      simp [utf8Size_of_hexValue? hlow]

theorem length_of_hexNumber? {digits : List Char} {c : Char} {unit : Nat}
    (hsize : utf8Length digits < 4)
    (hfull : ¬utf8Length digits + c.utf8Size < 4)
    (hunit : hexNumber? (digits ++ [c]) = some unit) : (digits ++ [c]).length = 4 := by
  rw [hexNumber?_concat] at hunit
  obtain ⟨high, hhigh, hunit⟩ := Option.bind_eq_some_iff.1 hunit
  obtain ⟨low, hlow, -⟩ := Option.map_eq_some_iff.1 hunit
  rw [utf8Length_of_hexNumber? hhigh] at hsize hfull
  rw [utf8Size_of_hexValue? hlow] at hfull
  rw [List.length_append, List.length_singleton]
  omega

end Strings

def Separated {α : Type} (spelled : List α → List Char → Prop) (parts : List α)
    (body : List Char) : Prop :=
  parts = [] ∧ body = [] ∨ ∃ text, spelled parts text ∧ body = text ++ [',']

/-- A text in which these containers stand open, the innermost first. The mark tells whether a key
is due, or else a value. -/
inductive Opened : Bool → List Frame → List Char → Prop
  | nil : Opened false [] []
  | array {frames : List Frame} {before gap : List Char} {items : List Reading} {body : List Char} :
      Opened false frames before → Blank gap → Separated ItemsSpelled items.reverse body →
        Opened false (.array items :: frames) (before ++ gap ++ '[' :: body)
  | object {frames : List Frame} {before gap : List Char}
      {members : List (Option String × Reading)} {body : List Char} :
      Opened false frames before → Blank gap → Separated MembersSpelled members.reverse body →
        Opened true (.object members none :: frames) (before ++ gap ++ '{' :: body)
  | keyed {frames : List Frame} {before : List Char} {members : List (Option String × Reading)}
      {key : Option String} {text : List Char} :
      Opened true (.object members none :: frames) before → KeySpelled key text →
        Opened false (.object members (some key) :: frames) (before ++ text ++ [':'])

inductive Reads : State → List Char → Prop
  | value {frames : List Frame} {before gap : List Char} :
      Opened false frames before → Blank gap → Reads ⟨frames, .value, none⟩ (before ++ gap)
  | itemOrEnd {frames : List Frame} {before gap : List Char} :
      Opened false (.array [] :: frames) before → Blank gap →
        Reads ⟨.array [] :: frames, .itemOrEnd, none⟩ (before ++ gap)
  | keyOrEnd {frames : List Frame} {before gap : List Char} :
      Opened true (.object [] none :: frames) before → Blank gap →
        Reads ⟨.object [] none :: frames, .keyOrEnd, none⟩ (before ++ gap)
  | key {frames : List Frame} {before gap : List Char} :
      Opened true frames before → Blank gap → Reads ⟨frames, .key, none⟩ (before ++ gap)
  | colon {frames : List Frame} {before : List Char} {members : List (Option String × Reading)}
      {key : Option String} {text : List Char} :
      Opened true (.object members none :: frames) before → KeySpelled key text →
        Reads ⟨.object members (some key) :: frames, .colon, none⟩ (before ++ text)
  | after {frames : List Frame} {before : List Char} {mode : Mode} {value : Reading}
      {text : List Char} :
      Opened false frames before → PaddedSpelled value text →
        Reads (State.complete ⟨frames, mode, none⟩ value) (before ++ text)
  | string {frames : List Frame} {before gap : List Char} {isKey : Bool} {pieces : List Piece}
      {body : List Char} {escape : Escape} {rest : List Char} :
      Opened isKey frames before → Blank gap → PiecesSpelled pieces body → escape.Spelled rest →
        Reads ⟨frames, .string isKey (.ofPieces pieces) escape, none⟩
          (before ++ gap ++ '"' :: (body ++ rest))
  | number {frames : List Frame} {before gap : List Char} {part : NumberPart}
      {written : List Char} :
      Opened false frames before → Blank gap → part.Spelled written.reverse →
        Reads ⟨frames, .number part written, none⟩ (before ++ gap ++ written.reverse)
  | word {frames : List Frame} {before gap : List Char} {value : Reading} {front rest : List Char} :
      Opened false frames before → Blank gap → Spelled value (front ++ rest) →
        Reads ⟨frames, .word rest value, none⟩ (before ++ gap ++ front)
  | stopped {s : State} {stop : Stop} {text : List Char} : s.mode = .stopped stop → Reads s text

theorem Reads.of_eq {s : State} {text text' : List Char} (h : Reads s text) (heq : text = text') :
    Reads s text' :=
  heq ▸ h

theorem PaddedSpelled.concat {value : Reading} {text : List Char} (h : PaddedSpelled value text)
    {c : Char} (hc : isSpace c = true) : PaddedSpelled value (text ++ [c]) := by
  obtain ⟨hbefore, hvalue, hafter⟩ := h
  rw [List.append_assoc]
  exact .mk hbefore hvalue (hafter.concat hc)

theorem ItemsSpelled.ne_nil {items : List Reading} {body : List Char} (h : ItemsSpelled items body) :
    items ≠ [] := by
  cases h <;> simp

theorem MembersSpelled.ne_nil {members : List (Option String × Reading)} {body : List Char}
    (h : MembersSpelled members body) : members ≠ [] := by
  cases h <;> simp

theorem KeySpelled.concat {key : Option String} {text : List Char} (h : KeySpelled key text)
    {c : Char} (hc : isSpace c = true) : KeySpelled key (text ++ [c]) := by
  obtain ⟨before, pieces, body, after, hbefore, hpieces, hafter, hkey, rfl⟩ := h
  exact ⟨before, pieces, body, after ++ [c], hbefore, hpieces, hafter.concat hc, hkey, by simp⟩

theorem Separated.body_eq_nil {α : Type} {spelled : List α → List Char → Prop} {body : List Char}
    (h : Separated spelled [] body) (hne : ∀ text, ¬spelled [] text) : body = [] := by
  rcases h with ⟨-, hbody⟩ | ⟨text, htext, -⟩
  · exact hbody
  · exact absurd htext (hne text)

theorem Separated.concat_item {items : List Reading} {body : List Char}
    (h : Separated ItemsSpelled items body) {value : Reading} {text : List Char}
    (hvalue : PaddedSpelled value text) : ItemsSpelled (items ++ [value]) (body ++ text) := by
  rcases h with ⟨rfl, rfl⟩ | ⟨front, hitems, rfl⟩
  · exact .one hvalue
  · simpa using hitems.more hvalue

theorem Separated.concat_member {members : List (Option String × Reading)} {body : List Char}
    (h : Separated MembersSpelled members body) {key : Option String} {keyText : List Char}
    (hkey : KeySpelled key keyText) {value : Reading} {text : List Char}
    (hvalue : PaddedSpelled value text) :
    MembersSpelled (members ++ [(key, value)]) (body ++ (keyText ++ ':' :: text)) := by
  rcases h with ⟨rfl, rfl⟩ | ⟨front, hmembers, rfl⟩
  · exact .one hkey hvalue
  · simpa using hmembers.more hkey hvalue

section Steps

variable {frames : List Frame} {before gap : List Char} {mode : Mode}

theorem reads_beginValue (hopened : Opened false frames before) (hgap : Blank gap) (c : Char) :
    Reads (State.beginValue ⟨frames, mode, none⟩ c) (before ++ gap ++ [c]) := by
  unfold State.beginValue
  split
  · next h => exact h ▸ .string hopened hgap .nil .none
  split
  · next h => exact (Reads.itemOrEnd (.array hopened hgap (.inl ⟨rfl, rfl⟩)) .nil).of_eq (by simp [h])
  split
  · next h => exact (Reads.keyOrEnd (.object hopened hgap (.inl ⟨rfl, rfl⟩)) .nil).of_eq (by simp [h])
  split
  · next h => exact .number hopened hgap (.inr (h ▸ rfl))
  split
  · next h => exact .number hopened hgap ⟨[], .inl rfl, h ▸ rfl⟩
  split
  · next hzero hdigit =>
      exact .number hopened hgap ⟨[], [c], .inl rfl, areDigits_singleton hdigit,
        fun e => hzero (Option.some.inj e), rfl⟩
  split
  · next h => exact h ▸ .word hopened hgap (.null : Spelled .null (['n'] ++ "ull".toList))
  split
  · next h => exact h ▸ .word hopened hgap (.true : Spelled (.bool true) (['t'] ++ "rue".toList))
  split
  · next h => exact h ▸ .word hopened hgap (.false : Spelled (.bool false) (['f'] ++ "alse".toList))
  · exact .stopped rfl

theorem reads_afterValue (hopened : Opened false frames before) {value : Reading} {text : List Char}
    (hvalue : PaddedSpelled value text) (c : Char) :
    Reads ((State.complete ⟨frames, mode, none⟩ value).afterValue c) (before ++ text ++ [c]) := by
  cases hopened with
  | nil => exact .stopped rfl
  | @array inner outer gap items body houter hgap hbody =>
      have hitems : ItemsSpelled (value :: items).reverse (body ++ text) := by
        rw [List.reverse_cons]
        exact hbody.concat_item hvalue
      let s : State := ⟨.array (value :: items) :: inner, .after, none⟩
      change Reads (if c = ',' then { s with mode := .value } else if c = ']' then s.endArray
        else s.stop .malformed) _
      split
      · next hcomma =>
          exact (Reads.value (.array houter hgap (.inr ⟨_, hitems, rfl⟩)) .nil).of_eq
            (by simp [hcomma])
      split
      · next hclose =>
          exact (Reads.after houter (.mk hgap (.array hitems) .nil)).of_eq (by simp [hclose])
      · exact .stopped rfl
  | @keyed inner _ members key keyText hobject hkey =>
      cases hobject with
      | @object _ outer gap _ body houter hgap hbody =>
        have hmembers : MembersSpelled ((key, value) :: members).reverse
            (body ++ (keyText ++ ':' :: text)) := by
          rw [List.reverse_cons]
          exact hbody.concat_member hkey hvalue
        let s : State := ⟨.object ((key, value) :: members) none :: inner, .after, none⟩
        change Reads (if c = ',' then { s with mode := .key } else if c = '}' then s.endObject
          else s.stop .malformed) _
        split
        · next hcomma =>
            exact (Reads.key (.object houter hgap (.inr ⟨_, hmembers, rfl⟩)) .nil).of_eq
              (by simp [hcomma])
        split
        · next hclose =>
            exact (Reads.after houter (.mk hgap (.object hmembers) .nil)).of_eq (by simp [hclose])
        · exact .stopped rfl

theorem Opened.complete_mode (hopened : Opened false frames before) (value : Reading) :
    (State.complete ⟨frames, mode, none⟩ value).mode = .after := by
  cases hopened <;> rfl

theorem reads_afterComplete (hopened : Opened false frames before) {value : Reading}
    {text : List Char} (hvalue : PaddedSpelled value text) (c : Char) :
    Reads (if isSpace c then State.complete ⟨frames, mode, none⟩ value
      else (State.complete ⟨frames, mode, none⟩ value).afterValue c) (before ++ text ++ [c]) := by
  split
  · next hspace =>
      exact (Reads.after hopened (hvalue.concat hspace)).of_eq (List.append_assoc ..).symm
  · exact reads_afterValue hopened hvalue c

theorem reads_endString {isKey : Bool} (hopened : Opened isKey frames before) (hgap : Blank gap)
    {pieces : List Piece} {body : List Char} (hpieces : PiecesSpelled pieces body) :
    Reads (State.endString ⟨frames, mode, none⟩ isKey (.ofPieces pieces))
      (before ++ gap ++ '"' :: (body ++ ['"'])) := by
  cases isKey with
  | false =>
      rw [endString_value]
      exact (Reads.after hopened (.mk hgap (.string hpieces) .nil)).of_eq (by simp)
  | true =>
      cases hopened with
      | object houter hspace hmembers =>
        have hkey : KeySpelled (nameOf? pieces) (gap ++ '"' :: (body ++ '"' :: [])) :=
          ⟨gap, pieces, body, [], hgap, hpieces, .nil, rfl, rfl⟩
        rw [endString_key rfl]
        exact (Reads.colon (.object houter hspace hmembers) hkey).of_eq (by simp)

theorem reads_inString {isKey : Bool} (hopened : Opened isKey frames before) (hgap : Blank gap)
    {pieces : List Piece} {body : List Char} (hpieces : PiecesSpelled pieces body)
    {escape : Escape} {rest : List Char} (hescape : escape.Spelled rest) (c : Char) :
    Reads (State.inString ⟨frames, mode, none⟩ isKey (.ofPieces pieces) c escape)
      (before ++ gap ++ '"' :: (body ++ rest) ++ [c]) := by
  have hconcat {piece : Piece} {text : List Char} (hpiece : piece.Spelled text) :
      Reads ⟨frames, .string isKey ((Quoted.ofPieces pieces).take piece) .none, none⟩
        (before ++ gap ++ '"' :: (body ++ text)) := by
    rw [← Quoted.ofPieces_concat]
    exact (Reads.string hopened hgap (hpieces.concat hpiece) .none).of_eq (by simp)
  cases hescape with
  | none =>
      simp only [State.inString]
      split
      · next hquote => exact (reads_endString hopened hgap hpieces).of_eq (by simp [hquote])
      split
      · next hslash =>
          exact (Reads.string hopened hgap hpieces .backslash).of_eq (by simp [hslash])
      split
      · exact .stopped rfl
      · next hquote hslash hlow =>
          exact (hconcat (.plain hlow hquote hslash)).of_eq (by simp)
  | backslash =>
      simp only [State.inString]
      split
      · next hu =>
          exact (Reads.string hopened hgap hpieces (@Escape.Spelled.hex [] (by decide))).of_eq
            (by simp [hu])
      split
      · next hletter => exact (hconcat (.escaped hletter)).of_eq (by simp)
      · exact .stopped rfl
  | @hex digits hsize =>
      simp only [State.inString, ← hexNumber?_concat]
      have hsum : utf8Length (digits ++ [c]) =
          utf8Length digits + c.utf8Size := by simp
      split
      · next hmore =>
          rw [← hsum] at hmore ⊢
          exact (Reads.string hopened hgap hpieces (.hex hmore)).of_eq (by simp)
      split
      · next hfull _ unit hunit =>
          exact (hconcat (.hex (length_of_hexNumber? hsize hfull hunit) hunit)).of_eq (by simp)
      · exact .stopped rfl

theorem Reads.step {s : State} {text : List Char} (h : Reads s text) (c : Char) :
    Reads (s.step c) (text ++ [c]) := by
  cases h with
  | value hopened hgap =>
      simp only [State.step]
      split
      · next hspace =>
          exact (Reads.value hopened (hgap.concat hspace)).of_eq (List.append_assoc ..).symm
      · exact reads_beginValue hopened hgap c
  | itemOrEnd hopened hgap =>
      simp only [State.step]
      split
      · next hspace =>
          exact (Reads.itemOrEnd hopened (hgap.concat hspace)).of_eq (List.append_assoc ..).symm
      split
      · next hclose =>
          cases hopened with
          | array houter hspace hitems =>
            obtain rfl := hitems.body_eq_nil fun _ h => h.ne_nil rfl
            exact (Reads.after houter (.mk hspace (.emptyArray hgap) .nil)).of_eq (by simp [hclose])
      · exact reads_beginValue hopened hgap c
  | keyOrEnd hopened hgap =>
      simp only [State.step]
      split
      · next hspace =>
          exact (Reads.keyOrEnd hopened (hgap.concat hspace)).of_eq (List.append_assoc ..).symm
      split
      · next hclose =>
          cases hopened with
          | object houter hspace hmembers =>
            obtain rfl := hmembers.body_eq_nil fun _ h => h.ne_nil rfl
            exact (Reads.after houter (.mk hspace (.emptyObject hgap) .nil)).of_eq (by simp [hclose])
      split
      · next hquote => exact hquote ▸ .string hopened hgap .nil .none
      · exact .stopped rfl
  | key hopened hgap =>
      simp only [State.step]
      split
      · next hspace =>
          exact (Reads.key hopened (hgap.concat hspace)).of_eq (List.append_assoc ..).symm
      split
      · next hquote => exact hquote ▸ .string hopened hgap .nil .none
      · exact .stopped rfl
  | colon hopened hkey =>
      simp only [State.step]
      split
      · next hspace => exact (Reads.colon hopened (hkey.concat hspace)).of_eq (List.append_assoc ..).symm
      split
      · next hcolon => exact (Reads.value (.keyed hopened hkey) .nil).of_eq (by simp [hcolon])
      · exact .stopped rfl
  | after hopened hvalue =>
      -- the value has its place already, what is open depends on the container around it
      simp only [State.step, hopened.complete_mode]
      exact reads_afterComplete hopened hvalue c
  | string hopened hgap hpieces hescape => exact reads_inString hopened hgap hpieces hescape c
  | @number frames before gap part written hopened hgap hpart =>
      simp only [State.step]
      split
      · next next hnext =>
          have hstep := hpart.step hnext
          rw [← List.reverse_cons] at hstep
          exact (Reads.number hopened hgap hstep).of_eq (by simp)
      -- the first character that does not belong to a number ends it and is taken after it
      · split
        · exact .stopped rfl
        · next hwhole =>
            have hisWhole : part.isWhole = true := by
              cases hpart : part.isWhole with
              | true => rfl
              | false => simp [hpart] at hwhole
            have hvalue := PaddedSpelled.mk hgap (spelled_ofNumber (hpart.isNumber hisWhole)) .nil
            exact (reads_afterComplete hopened hvalue c).of_eq (by simp)
  | @word frames before gap value front rest hopened hgap hvalue =>
      simp only [State.step]
      split
      · exact .stopped rfl
      · next expected rest =>
          split
          · exact .stopped rfl
          split
          · next heq hrest =>
              subst hrest
              exact (Reads.after hopened (.mk hgap hvalue .nil)).of_eq (by simp [not_not.1 heq])
          · next heq _ =>
              rw [List.append_cons] at hvalue
              exact (Reads.word hopened hgap hvalue).of_eq (by simp [not_not.1 heq])
  | @stopped _ stop _ hstop =>
      have hsame : s.step c = s := by simp [State.step, hstop]
      rw [hsame]
      exact .stopped hstop

end Steps

theorem reads_foldl {s : State} {text : List Char} (h : Reads s text) (rest : List Char) :
    Reads (rest.foldl State.step s) (text ++ rest) := by
  induction rest generalizing s text with
  | nil => simpa using h
  | cons c rest ih => simpa using ih (h.step c)

theorem reads_ofText (text : List Char) : Reads (text.foldl State.step .start) text :=
  reads_foldl (.value .nil .nil) text

theorem skipFlaw?_close (stop : Stop) (frames : List Frame) (inner : Option Reading)
    (h : ∀ value ∈ inner, value.skipFlaw? ≠ none) : (close stop frames inner).skipFlaw? ≠ none := by
  induction frames generalizing inner with
  | nil =>
      cases inner with
      | none => simp [close, skipFlaw?]
      | some value => exact h value rfl
  | cons frame frames ih =>
      cases frame with
      | array items =>
          apply ih
          simp [skipFlaw?]
      | object members key =>
          apply ih
          simp [skipFlaw?]

section Finish

variable {s : State}
  (hmode : ∀ part written, s.mode = .number part written → part.isWhole = false)

include hmode

theorem State.finish_of_result_none (hresult : s.result = none) :
    let stop := s.stop?.getD (.both .truncated)
    s.finish = ⟨close stop s.nested (if s.atValue then some (.stopped stop) else none), none⟩ := by
  obtain ⟨frames, mode, result⟩ := s
  obtain rfl : result = none := hresult
  cases mode with
  | number part written =>
      have hpart : part.isWhole = false := hmode part written rfl
      simp [State.finish, hpart, State.stop?]
  | _ => rfl

theorem State.skipFlaw?_finish (hresult : s.result = none) : s.finish.value.skipFlaw? ≠ none := by
  rw [finish_of_result_none hmode hresult]
  apply skipFlaw?_close
  intro value hvalue
  split at hvalue
  · obtain rfl := Option.some.inj hvalue
    simp [skipFlaw?]
  · cases hvalue

theorem State.finish_of_stop {value : Reading} {stop : Stop} (hresult : s.result = some value)
    (hstop : s.stop? = some stop) : s.finish = ⟨value, some stop.read⟩ := by
  obtain ⟨frames, mode, result⟩ := s
  obtain rfl : result = some value := hresult
  cases mode with
  | number part written =>
      have hpart : part.isWhole = false := hmode part written rfl
      simp [State.finish, hpart, hstop]
  | _ => simp [State.finish, hstop]

end Finish

theorem Opened.ready {frames : List Frame} {before : List Char} (hopened : Opened false frames before) :
    Ready ⟨frames, .value, none⟩ := by
  refine ⟨.inl rfl, ?_⟩
  rintro members outer rfl
  cases hopened

theorem Opened.spelled_of_finish {frames : List Frame} {before : List Char} {mode : Mode}
    (hopened : Opened false frames before) {value : Reading} {text : List Char}
    (hvalue : PaddedSpelled value text)
    (hflaw : (State.complete ⟨frames, mode, none⟩ value).finish.value.skipFlaw? = none) :
    PaddedSpelled (State.complete ⟨frames, mode, none⟩ value).finish.value (before ++ text) := by
  cases hopened with
  | nil => exact hvalue
  | array => exact absurd hflaw (State.skipFlaw?_finish (by rintro _ _ ⟨⟩) rfl)
  | keyed => exact absurd hflaw (State.skipFlaw?_finish (by rintro _ _ ⟨⟩) rfl)

theorem Reads.spelled_of_finish {s : State} {text : List Char} (h : Reads s text)
    (htrailing : s.finish.trailing = none) (hflaw : s.finish.value.skipFlaw? = none) :
    PaddedSpelled s.finish.value text := by
  cases h with
  | value | itemOrEnd | keyOrEnd | key | colon | string | word =>
      exact absurd hflaw (State.skipFlaw?_finish (by rintro _ _ ⟨⟩) rfl)
  | after hopened hvalue => exact hopened.spelled_of_finish hvalue hflaw
  | @number frames before gap part written hopened hgap hpart =>
      cases hwhole : part.isWhole with
      | false =>
          refine absurd hflaw (State.skipFlaw?_finish ?_ rfl)
          rintro _ _ ⟨⟩
          exact hwhole
      | true =>
          have hvalue := PaddedSpelled.mk hgap (spelled_ofNumber (hpart.isNumber hwhole)) .nil
          have hfinish := (settles_number hopened.ready hwhole written).finish
          rw [hfinish] at hflaw ⊢
          simpa using hopened.spelled_of_finish hvalue hflaw
  | @stopped _ stop _ hstop =>
      have hmode : ∀ part written, s.mode = .number part written → part.isWhole = false := by
        intro part written heq
        rw [hstop] at heq
        cases heq
      have hstop? : s.stop? = some stop := by rw [State.stop?, hstop]
      -- a value may be complete before the text goes wrong, but then the rest is flawed
      cases hresult : s.result with
      | none => exact absurd hflaw (State.skipFlaw?_finish hmode hresult)
      | some value =>
          rw [State.finish_of_stop hmode hresult hstop?] at htrailing
          cases htrailing

theorem ofText_eq_iff {text : List Char} {value : Reading} :
    ofText text = ⟨value, none⟩ ∧ value.skipFlaw? = none ↔ PaddedSpelled value text := by
  constructor
  · rintro ⟨htext, hflaw⟩
    have hvalue : (ofText text).value = value := by rw [htext]
    have htrailing : (ofText text).trailing = none := by rw [htext]
    rw [← hvalue] at hflaw ⊢
    exact (reads_ofText text).spelled_of_finish htrailing hflaw
  · intro h
    exact ⟨ofText_of_spelled h, h.skipFlaw?⟩

end HtmlIds.Reading
