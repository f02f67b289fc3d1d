import HtmlIds.Proofs.Json.Grammar
import Mathlib.Data.List.Induction

namespace HtmlIds.Reading

def IsDelimiter (c : Char) : Prop :=
  isSpace c = true ∨ c = ',' ∨ c = ']' ∨ c = '}'

structure Ready (s : State) : Prop where
  mode : s.mode = .value ∨ s.mode = .itemOrEnd
  keyed : ∀ members frames, s.nested ≠ .object members none :: frames

/-- Two states go on alike after a value. A number is told to be complete only by what follows it,
so the states themselves may differ. -/
structure Settles (s t : State) : Prop where
  step : ∀ c, IsDelimiter c → s.step c = t.step c
  finish : s.finish = t.finish

theorem Settles.of_eq {s t : State} (h : s = t) : Settles s t :=
  ⟨fun c _ => congrArg (State.step · c) h, congrArg State.finish h⟩

section Strings

theorem hexNumber?_concat (digits : List Char) (c : Char) :
    hexNumber? (digits ++ [c]) =
      (hexNumber? digits).bind fun high => (hexValue? c).map (16 * high + ·) := by
  rw [hexNumber?, List.foldl_append]
  rfl

theorem utf8Size_of_hexValue? {c : Char} {n : Nat} (h : hexValue? c = some n) : c.utf8Size = 1 := by
  have hlt : c.toNat < 128 := by
    unfold hexValue? at h
    split at h
    · next hdigit =>
        have hle : c.toNat ≤ 57 := (Char.isDigit_iff_toNat.1 hdigit).2
        omega
    split at h
    · next hsmall =>
        have hle : c.toNat ≤ 102 := (of_decide_eq_true (Bool.and_eq_true_iff.1 hsmall).2 : c ≤ 'f')
        omega
    split at h
    · next hcapital =>
        have hle : c.toNat ≤ 70 := (of_decide_eq_true (Bool.and_eq_true_iff.1 hcapital).2 : c ≤ 'F')
        omega
    · cases h
  rw [Char.utf8Size_eq_one_iff, UInt32.le_iff_toNat_le]
  exact Nat.le_of_lt_succ hlt

def State.quoting (s : State) (isKey : Bool) (quoted : Quoted) : State :=
  { s with mode := .string isKey quoted .none }

def Quoted.take (quoted : Quoted) : Piece → Quoted
  | .char c => quoted.push c
  | .unit unit => quoted.pushUnit unit

def Quoted.ofPieces (pieces : List Piece) : Quoted :=
  pieces.foldl take {}

theorem Quoted.ofPieces_concat (pieces : List Piece) (piece : Piece) :
    ofPieces (pieces ++ [piece]) = (ofPieces pieces).take piece := by
  rw [ofPieces, List.foldl_append]
  rfl

def Quoted.text? (quoted : Quoted) : Option (List Char) :=
  if quoted.sound && quoted.high.isNone then some quoted.text.reverse else none

theorem isLowHalf_of_isHighHalf {unit : Nat} (h : isHighHalf unit = true) :
    isLowHalf unit = false := by
  simp only [isHighHalf, isLowHalf, Bool.and_eq_true, decide_eq_true_eq] at h ⊢
  simp only [Bool.and_eq_false_iff, decide_eq_false_iff_not]
  omega

theorem Quoted.text?_foldl_take (pieces : List Piece) (quoted : Quoted) :
    (pieces.foldl take quoted).text? =
      if quoted.sound then (textOf? quoted.high pieces).map (quoted.text.reverse ++ ·) else none := by
  induction pieces generalizing quoted with
  | nil =>
      obtain ⟨text, high, sound⟩ := quoted
      cases high <;> cases sound <;> simp [text?, textOf?]
  | cons piece rest ih =>
      obtain ⟨text, high, sound⟩ := quoted
      rw [List.foldl_cons, ih]
      cases piece with
      | char c =>
          cases high <;> cases sound <;>
            simp [take, push, textOf?, Option.map_map, Function.comp_def]
      | unit unit =>
          by_cases hhigh : isHighHalf unit = true
          · have htake : take ⟨text, high, sound⟩ (.unit unit) =
                ⟨text, some unit, sound && high.isNone⟩ := if_pos hhigh
            rw [htake]
            cases high <;> cases sound <;>
              simp [textOf?, hhigh, isLowHalf_of_isHighHalf hhigh]
          by_cases hlow : isLowHalf unit = true
          · cases high with
            | none =>
                have htake : take ⟨text, none, sound⟩ (.unit unit) = ⟨text, none, false⟩ :=
                  (if_neg hhigh).trans (if_pos hlow)
                rw [htake]
                simp [textOf?, hhigh, hlow]
            | some high =>
                have htake : take ⟨text, some high, sound⟩ (.unit unit) =
                    ⟨Char.ofNat (0x10000 + (high - 0xD800) * 0x400 + (unit - 0xDC00)) :: text, none,
                      sound⟩ :=
                  (if_neg hhigh).trans (if_pos hlow)
                rw [htake]
                cases sound <;> simp [textOf?, hlow, Option.map_map, Function.comp_def]
          · have htake : take ⟨text, high, sound⟩ (.unit unit) =
                push ⟨text, high, sound⟩ (Char.ofNat unit) :=
              (if_neg hhigh).trans (if_neg hlow)
            rw [htake]
            cases high <;> cases sound <;>
              simp [push, textOf?, hhigh, hlow, Option.map_map, Function.comp_def]

theorem Quoted.text?_ofPieces (pieces : List Piece) :
    (ofPieces pieces).text? = textOf? none pieces := by
  rw [ofPieces, text?_foldl_take]
  simp

variable (s : State) (isKey : Bool) (quoted : Quoted)

theorem foldl_hexDigits {digits : List Char} (hlen : digits.length < 4)
    (hsome : (hexNumber? digits).isSome = true) :
    digits.foldl State.step { s with mode := .string isKey quoted (.hex 0 (some 0)) } =
      { s with mode := .string isKey quoted (.hex digits.length (hexNumber? digits)) } := by
  induction digits using List.reverseRecOn with
  | nil => rfl
  | append_singleton digits c ih =>
      rw [hexNumber?_concat] at hsome ⊢
      cases hdigits : hexNumber? digits with
      | none => simp [hdigits] at hsome
      | some high =>
          cases hc : hexValue? c with
          | none => simp [hdigits, hc] at hsome
          | some low =>
              have hlt : digits.length + 1 < 4 := by simpa using hlen
              rw [List.foldl_append, ih (by omega) (by simp [hdigits]), hdigits]
              simp [State.step, State.inString, hc, utf8Size_of_hexValue? hc, hlt]

theorem foldl_piece {piece : Piece} {text : List Char} (h : piece.Spelled text) :
    text.foldl State.step (s.quoting isKey quoted) = s.quoting isKey (quoted.take piece) := by
  cases h with
  | plain hlow hquote hslash =>
      simp [State.step, State.quoting, State.inString, Quoted.take, hquote, hslash, hlow]
  | @escaped letter c hletter =>
      have hu : letter ≠ 'u' := by
        rintro rfl
        cases hletter
      simp [State.step, State.quoting, State.inString, Quoted.take, hletter, hu]
  | @hex digits unit hlen hunit =>
      have hne : digits ≠ [] := by
        rintro rfl
        cases hlen
      obtain ⟨front, last, rfl⟩ : ∃ front last, digits = front ++ [last] :=
        ⟨_, _, (List.dropLast_concat_getLast hne).symm⟩
      have hfront : front.length = 3 := by simpa using hlen
      rw [hexNumber?_concat] at hunit
      obtain ⟨high, hhigh, hunit⟩ := Option.bind_eq_some_iff.1 hunit
      obtain ⟨low, hlow, rfl⟩ := Option.map_eq_some_iff.1 hunit
      have hopen : ['\\', 'u'].foldl State.step (s.quoting isKey quoted) =
          { s with mode := .string isKey quoted (.hex 0 (some 0)) } := rfl
      have hdigits := foldl_hexDigits s isKey quoted (by omega : front.length < 4) (by simp [hhigh])
      have hlast : State.step
          { s with mode := .string isKey quoted (.hex front.length (hexNumber? front)) } last =
            s.quoting isKey (quoted.take (.unit (16 * high + low))) := by
        simp [State.step, State.inString, State.quoting, Quoted.take, hhigh, hlow, hfront,
          utf8Size_of_hexValue? hlow]
      calc ('\\' :: 'u' :: (front ++ [last])).foldl State.step (s.quoting isKey quoted)
          = (front ++ [last]).foldl State.step
              { s with mode := .string isKey quoted (.hex 0 (some 0)) } := by
            rw [← hopen, ← List.foldl_append]
            rfl
        _ = _ := by rw [List.foldl_append, hdigits, List.foldl_cons, hlast, List.foldl_nil]

theorem foldl_pieces {pieces : List Piece} {body : List Char} (h : PiecesSpelled pieces body) :
    body.foldl State.step (s.quoting isKey {}) = s.quoting isKey (.ofPieces pieces) := by
  induction h with
  | nil => rfl
  | concat _ hpiece ih =>
      rw [List.foldl_append, ih, foldl_piece s isKey _ hpiece, Quoted.ofPieces_concat]

end Strings

theorem isSpace_cases {c : Char} (h : isSpace c = true) :
    c = ' ' ∨ c = '\n' ∨ c = '\t' ∨ c = '\r' := by
  simpa [isSpace, or_assoc] using h

theorem complete_eq_of_nested {s t : State} (hnested : s.nested = t.nested)
    (hresult : s.result = t.result) (value : Reading) : s.complete value = t.complete value := by
  obtain ⟨nested, mode, result⟩ := s
  obtain ⟨nested', mode', result'⟩ := t
  obtain rfl : nested = nested' := hnested
  obtain rfl : result = result' := hresult
  rfl

theorem complete_mode {s : State} (h : Ready s) (value : Reading) :
    (s.complete value).mode = .after := by
  unfold State.complete
  split
  · rfl
  · rfl
  · rfl
  · next members frames hnested => exact absurd hnested (h.keyed members frames)

theorem Ready.step {s : State} (h : Ready s) {c : Char} (hspace : isSpace c = false)
    (hend : c ≠ ']') : s.step c = s.beginValue c := by
  rcases h.mode with hmode | hmode
  · simp [State.step, hmode, hspace]
  · simp [State.step, hmode, hspace, hend]

theorem Ready.step_open {s : State} (h : Ready s) :
    s.step '[' = { s with nested := .array [] :: s.nested, mode := .itemOrEnd } :=
  h.step rfl (by decide)

theorem Ready.step_openObject {s : State} (h : Ready s) :
    s.step '{' = { s with nested := .object [] none :: s.nested, mode := .keyOrEnd } :=
  h.step rfl (by decide)

theorem foldl_blank {s : State} (h : ∀ c, isSpace c = true → s.step c = s) {gap : List Char}
    (hgap : Blank gap) : gap.foldl State.step s = s := by
  induction gap with
  | nil => rfl
  | cons c rest ih =>
      rw [List.foldl_cons, h c (hgap c List.mem_cons_self)]
      exact ih fun c' hc' => hgap c' (List.mem_cons_of_mem c hc')

theorem Ready.step_space {s : State} (h : Ready s) {c : Char} (hc : isSpace c = true) :
    s.step c = s := by
  rcases h.mode with hmode | hmode <;> simp [State.step, hmode, hc]

theorem Settles.foldl_blank {s t : State} (h : Settles s t) (ht : t.mode = .after) {gap : List Char}
    (hgap : Blank gap) : Settles (gap.foldl State.step s) t := by
  have hspace (c : Char) (hc : isSpace c = true) : t.step c = t := by simp [State.step, ht, hc]
  cases gap with
  | nil => exact h
  | cons c rest =>
      have hc : isSpace c = true := hgap c List.mem_cons_self
      rw [List.foldl_cons, h.step c (.inl hc), hspace c hc]
      exact .of_eq (Reading.foldl_blank hspace fun c' hc' => hgap c' (List.mem_cons_of_mem c hc'))

theorem Quoted.name_eq (quoted : Quoted) :
    (if quoted.sound && quoted.high.isNone then some (String.ofList quoted.text.reverse) else none) =
      quoted.text?.map String.ofList := by
  unfold text?
  split <;> rfl

theorem Quoted.name_ofPieces (pieces : List Piece) :
    (ofPieces pieces).text?.map String.ofList = nameOf? pieces := by
  rw [text?_ofPieces]
  rfl

theorem endString_value (s : State) (pieces : List Piece) :
    s.endString false (.ofPieces pieces) = s.complete (ofPieces pieces) := by
  unfold State.endString
  rw [Quoted.name_eq, Quoted.name_ofPieces]
  rfl

theorem endString_key {s : State} {members : List (Option String × Reading)}
    {key : Option (Option String)} {frames : List Frame} (h : s.nested = .object members key :: frames)
    (pieces : List Piece) :
    s.endString true (.ofPieces pieces) =
      { s with nested := .object members (some (nameOf? pieces)) :: frames, mode := .colon } := by
  unfold State.endString
  rw [Quoted.name_eq, Quoted.name_ofPieces, h]
  rfl

theorem settles_string {s : State} (h : Ready s) {pieces : List Piece} {body : List Char}
    (hbody : PiecesSpelled pieces body) :
    Settles (('"' :: (body ++ ['"'])).foldl State.step s) (s.complete (ofPieces pieces)) := by
  have hopen : s.step '"' = s.quoting false {} := h.step rfl (by decide)
  have hclose : (s.quoting false (.ofPieces pieces)).step '"' =
      (s.quoting false (.ofPieces pieces)).endString false (.ofPieces pieces) := rfl
  rw [List.foldl_cons, hopen, List.foldl_append, foldl_pieces s false hbody, List.foldl_cons, hclose,
    endString_value]
  exact .of_eq (complete_eq_of_nested rfl rfl _)

theorem foldl_name {s : State} {members : List (Option String × Reading)} {frames : List Frame}
    (hmode : s.mode = .key ∨ s.mode = .keyOrEnd) (hnested : s.nested = .object members none :: frames)
    {key : Option String} {text : List Char} (h : KeySpelled key text) :
    text.foldl State.step s =
      { s with nested := .object members (some key) :: frames, mode := .colon } := by
  obtain ⟨before, pieces, body, after, hbefore, hbody, hafter, rfl, rfl⟩ := h
  have hspace (c : Char) (hc : isSpace c = true) : s.step c = s := by
    rcases hmode with hmode | hmode <;> simp [State.step, hmode, hc]
  have hopen : s.step '"' = s.quoting true {} := by
    have hquote : isSpace '"' = false := rfl
    rcases hmode with hmode | hmode <;> simp [State.step, State.quoting, hmode, hquote]
  let named : State :=
    { s with nested := .object members (some (nameOf? pieces)) :: frames, mode := .colon }
  have hclose : (s.quoting true (.ofPieces pieces)).step '"' = named :=
    endString_key (s := s.quoting true (.ofPieces pieces)) hnested pieces
  have hafterSpace (c : Char) (hc : isSpace c = true) : named.step c = named := by
    simp [named, State.step, hc]
  calc (before ++ '"' :: (body ++ '"' :: after)).foldl State.step s
      = after.foldl State.step ((s.quoting true (.ofPieces pieces)).step '"') := by
        simp only [List.foldl_append, List.foldl_cons, foldl_blank hspace hbefore, hopen,
          foldl_pieces s true hbody]
    _ = named := by rw [hclose, foldl_blank hafterSpace hafter]

theorem foldl_key {s : State} {members : List (Option String × Reading)} {frames : List Frame}
    (hmode : s.mode = .key ∨ s.mode = .keyOrEnd) (hnested : s.nested = .object members none :: frames)
    {key : Option String} {text : List Char} (h : KeySpelled key text) :
    (text ++ [':']).foldl State.step s =
      { s with nested := .object members (some key) :: frames, mode := .value } := by
  rw [List.foldl_append, foldl_name hmode hnested h]
  rfl

section Numbers

theorem IsDelimiter.next?_eq_none {c : Char} (h : IsDelimiter c) {part : NumberPart}
    (hpart : part.isWhole = true) : part.next? c = none ∧ c.isDigit = false := by
  have hc : c.isDigit = false ∧ c ≠ '.' ∧ c ≠ 'e' ∧ c ≠ 'E' := by
    rcases h with h | rfl | rfl | rfl
    · rcases isSpace_cases h with rfl | rfl | rfl | rfl <;> decide
    all_goals decide
  obtain ⟨hdigit, hpoint, he, hE⟩ := hc
  refine ⟨?_, hdigit⟩
  cases part with
  | zero | whole | fraction | exponent => simp [NumberPart.next?, hdigit, hpoint, he, hE]
  | sign | point | mark | markSign => cases hpart

theorem settles_number {s : State} (h : Ready s) {part : NumberPart} (hpart : part.isWhole = true)
    (written : List Char) :
    Settles { s with mode := .number part written } (s.complete (ofNumber written.reverse)) := by
  -- a number is complete once a delimiter, or the end of the text, follows it
  have hcomplete : ({ s with mode := .number part written } : State).complete
      (ofNumber written.reverse) = s.complete (ofNumber written.reverse) :=
    complete_eq_of_nested rfl rfl _
  have hmode := complete_mode h (ofNumber written.reverse)
  constructor
  · intro c hc
    obtain ⟨hnext, hdigit⟩ := hc.next?_eq_none hpart
    simp only [State.step, hnext, hdigit, hpart, hcomplete, hmode, Bool.and_false, Bool.not_true,
      Bool.or_self, Bool.false_eq_true, if_false]
  · simp only [State.finish, hpart, hcomplete, hmode, if_true]

def NumberPart.run? (part : NumberPart) (text : List Char) : Option NumberPart :=
  text.foldlM next? part

theorem NumberPart.run?_append {part : NumberPart} {front back : List Char} {next : NumberPart}
    (h : part.run? front = some next) : part.run? (front ++ back) = next.run? back := by
  rw [run?, List.foldlM_append]
  exact congrArg (· >>= fun part => back.foldlM next? part) h

theorem NumberPart.run?_cons {part next : NumberPart} {c : Char} (h : part.next? c = some next)
    (rest : List Char) : part.run? (c :: rest) = next.run? rest := by
  rw [run?, List.foldlM_cons, h]
  rfl

theorem foldl_number (s : State) {part last : NumberPart} {text : List Char}
    (h : part.run? text = some last) (written : List Char) :
    text.foldl State.step { s with mode := .number part written } =
      { s with mode := .number last (text.reverse ++ written) } := by
  induction text generalizing part written with
  | nil =>
      obtain rfl : part = last := Option.some.inj h
      rfl
  | cons c rest ih =>
      cases hnext : part.next? c with
      | none =>
          rw [NumberPart.run?, List.foldlM_cons, hnext] at h
          cases h
      | some next =>
          rw [NumberPart.run?_cons hnext] at h
          have hstep : State.step { s with mode := .number part written } c =
              { s with mode := .number next (c :: written) } := by
            simp only [State.step, hnext]
          rw [List.foldl_cons, hstep, ih h, List.reverse_cons, List.append_assoc]
          rfl

theorem run?_more_digits {part : NumberPart}
    (hstay : ∀ c : Char, c.isDigit = true → part.next? c = some part) {digits : List Char}
    (h : ∀ c ∈ digits, c.isDigit = true) : part.run? digits = some part := by
  induction digits with
  | nil => rfl
  | cons c rest ih =>
      rw [NumberPart.run?_cons (hstay c (h c List.mem_cons_self))]
      exact ih fun c' hc' => h c' (List.mem_cons_of_mem c hc')

theorem run?_digits {part inner : NumberPart}
    (henter : ∀ c : Char, c.isDigit = true → part.next? c = some inner)
    (hstay : ∀ c : Char, c.isDigit = true → inner.next? c = some inner)
    {digits : List Char} (h : AreDigits digits) : part.run? digits = some inner := by
  obtain ⟨hne, hdigits⟩ := h
  obtain ⟨c, rest, rfl⟩ := List.exists_cons_of_ne_nil hne
  rw [NumberPart.run?_cons (henter c (hdigits c List.mem_cons_self))]
  exact run?_more_digits hstay fun c' hc' => hdigits c' (List.mem_cons_of_mem c hc')

theorem run?_integer {whole : List Char}
    (h : whole = ['0'] ∨ AreDigits whole ∧ whole.head? ≠ some '0') :
    ∃ part, NumberPart.run? .sign whole = some part ∧ (part = .zero ∨ part = .whole) := by
  rcases h with rfl | ⟨⟨hne, hdigits⟩, hhead⟩
  · exact ⟨.zero, rfl, .inl rfl⟩
  · obtain ⟨c, rest, rfl⟩ := List.exists_cons_of_ne_nil hne
    have hc : c.isDigit = true := hdigits c List.mem_cons_self
    have hzero : c ≠ '0' := fun e => hhead (congrArg some e)
    have hfirst : NumberPart.next? .sign c = some .whole := by
      simp [NumberPart.next?, hc, hzero]
    refine ⟨.whole, ?_, .inr rfl⟩
    rw [NumberPart.run?_cons hfirst]
    refine run?_more_digits (fun c hc => ?_) fun c' hc' => hdigits c' (List.mem_cons_of_mem c hc')
    simp [NumberPart.next?, hc]

theorem run?_fraction {part : NumberPart} (hpart : part = .zero ∨ part = .whole)
    {fraction : List Char}
    (h : fraction = [] ∨ ∃ digits, AreDigits digits ∧ fraction = '.' :: digits) :
    ∃ last, part.run? fraction = some last ∧
      (last = .zero ∨ last = .whole ∨ last = .fraction) := by
  rcases h with rfl | ⟨digits, hdigits, rfl⟩
  · refine ⟨part, rfl, ?_⟩
    rcases hpart with rfl | rfl <;> simp
  · have hpoint : part.next? '.' = some .point := by rcases hpart with rfl | rfl <;> rfl
    refine ⟨.fraction, ?_, .inr (.inr rfl)⟩
    rw [NumberPart.run?_cons hpoint]
    exact run?_digits (fun c hc => by simp [NumberPart.next?, hc])
      (fun c hc => by simp [NumberPart.next?, hc]) hdigits

theorem run?_exponent {part : NumberPart} (hpart : part = .zero ∨ part = .whole ∨ part = .fraction)
    {exponent : List Char}
    (h : exponent = [] ∨ ∃ mark sign digits, (mark = 'e' ∨ mark = 'E') ∧
      (sign = [] ∨ sign = ['+'] ∨ sign = ['-']) ∧ AreDigits digits ∧
      exponent = mark :: (sign ++ digits)) :
    ∃ last, part.run? exponent = some last ∧ last.isWhole = true := by
  rcases h with rfl | ⟨mark, sign, digits, hmark, hsign, hdigits, rfl⟩
  · refine ⟨part, rfl, ?_⟩
    rcases hpart with rfl | rfl | rfl <;> rfl
  · have hfirst : part.next? mark = some .mark := by
      rcases hpart with rfl | rfl | rfl <;> rcases hmark with rfl | rfl <;> rfl
    have hstay (c : Char) (hc : c.isDigit = true) :
        NumberPart.next? .exponent c = some .exponent := by simp [NumberPart.next?, hc]
    refine ⟨.exponent, ?_, rfl⟩
    rw [NumberPart.run?_cons hfirst]
    rcases hsign with rfl | rfl | rfl
    · exact run?_digits (fun c hc => by simp [NumberPart.next?, hc]) hstay hdigits
    · exact (NumberPart.run?_cons rfl digits).trans
        (run?_digits (fun c hc => by simp [NumberPart.next?, hc]) hstay hdigits)
    · exact (NumberPart.run?_cons rfl digits).trans
        (run?_digits (fun c hc => by simp [NumberPart.next?, hc]) hstay hdigits)

theorem run?_number {text : List Char} (h : IsNumber text) : ∃ sign unsigned last,
    text = sign ++ unsigned ∧ (sign = [] ∨ sign = ['-']) ∧
      NumberPart.run? .sign unsigned = some last ∧ last.isWhole = true := by
  obtain ⟨_, exponent, ⟨_, fraction, ⟨sign, whole, hsign, hwhole, rfl⟩, hfraction, rfl⟩, hexponent,
    rfl⟩ := h
  obtain ⟨first, hfirst, hpart⟩ := run?_integer hwhole
  obtain ⟨second, hsecond, hpart⟩ := run?_fraction hpart hfraction
  obtain ⟨last, hlast, hisWhole⟩ := run?_exponent hpart hexponent
  refine ⟨sign, whole ++ (fraction ++ exponent), last, by simp, hsign, ?_, hisWhole⟩
  rw [NumberPart.run?_append hfirst, NumberPart.run?_append hsecond, hlast]

theorem digit_ne {c : Char} (h : c.isDigit = true) :
    isSpace c = false ∧ c ≠ '"' ∧ c ≠ '[' ∧ c ≠ ']' ∧ c ≠ '{' ∧ c ≠ '-' := by
  refine ⟨?_, ?_, ?_, ?_, ?_, ?_⟩
  · rw [← Bool.not_eq_true]
    intro hspace
    rcases isSpace_cases hspace with rfl | rfl | rfl | rfl <;> exact absurd h (by decide)
  all_goals
    rintro rfl
    exact absurd h (by decide)

theorem beginValue_of_next? {c : Char} {part : NumberPart}
    (h : NumberPart.next? .sign c = some part) (s : State) :
    isSpace c = false ∧ c ≠ ']' ∧ s.beginValue c = { s with mode := .number part [c] } := by
  have hpart : (if c = '0' then some .zero else if c.isDigit then some .whole else none) =
      some part := h
  split at hpart
  · next hzero =>
      obtain rfl := Option.some.inj hpart
      subst hzero
      exact ⟨rfl, by decide, rfl⟩
  split at hpart
  · next hzero hdigit =>
      obtain rfl := Option.some.inj hpart
      obtain ⟨hspace, hquote, hopen, hclose, hbrace, hminus⟩ := digit_ne hdigit
      refine ⟨hspace, hclose, ?_⟩
      simp [State.beginValue, hquote, hopen, hbrace, hminus, hzero, hdigit]
  · cases hpart

theorem settles_isNumber {s : State} (h : Ready s) {text : List Char} (htext : IsNumber text) :
    Settles (text.foldl State.step s) (s.complete (ofNumber text)) := by
  obtain ⟨sign, unsigned, last, rfl, hsign, hrun, hlast⟩ := run?_number htext
  rcases hsign with rfl | rfl
  · cases unsigned with
    | nil =>
        obtain rfl := Option.some.inj hrun
        cases hlast
    | cons c rest =>
        cases hnext : NumberPart.next? .sign c with
        | none =>
            rw [NumberPart.run?, List.foldlM_cons, hnext] at hrun
            cases hrun
        | some part =>
            obtain ⟨hspace, hend, hbegin⟩ := beginValue_of_next? hnext s
            rw [NumberPart.run?_cons hnext] at hrun
            rw [List.nil_append, List.foldl_cons, h.step hspace hend, hbegin, foldl_number s hrun]
            simpa using settles_number h hlast (rest.reverse ++ [c])
  · have hbegin : s.step '-' = { s with mode := .number .sign ['-'] } := h.step rfl (by decide)
    rw [List.singleton_append, List.foldl_cons, hbegin, foldl_number s hrun]
    simpa using settles_number h hlast (unsigned.reverse ++ ['-'])

end Numbers

theorem foldl_word {rest : List Char} (hrest : rest ≠ []) (s : State) (value : Reading) :
    rest.foldl State.step { s with mode := .word rest value } = s.complete value := by
  induction rest with
  | nil => exact absurd rfl hrest
  | cons expected rest ih =>
      rw [List.foldl_cons]
      by_cases h : rest = []
      · subst h
        have hstep : State.step { s with mode := .word [expected] value } expected =
            State.complete { s with mode := .word [expected] value } value := by
          simp [State.step]
        rw [List.foldl_nil, hstep]
        exact complete_eq_of_nested rfl rfl value
      · have hstep : State.step { s with mode := .word (expected :: rest) value } expected =
            { s with mode := .word rest value } := by
          simp [State.step, h]
        rw [hstep]
        exact ih h

theorem settles_word {s : State} (h : Ready s) {c : Char} {rest : List Char} {value : Reading}
    (hspace : isSpace c = false) (hend : c ≠ ']') (hrest : rest ≠ [])
    (hbegin : s.beginValue c = { s with mode := .word rest value }) :
    Settles ((c :: rest).foldl State.step s) (s.complete value) := by
  rw [List.foldl_cons, h.step hspace hend, hbegin, foldl_word hrest]
  exact .of_eq rfl

theorem ready_keyed (s : State) (members : List (Option String × Reading)) (key : Option String)
    (frames : List Frame) :
    Ready { s with nested := .object members (some key) :: frames, mode := .value } :=
  ⟨.inl rfl, fun _ _ e => by cases e⟩

theorem ready_array {s : State} {items : List Reading} {frames : List Frame}
    (hmode : s.mode = .value ∨ s.mode = .itemOrEnd) (hnested : s.nested = .array items :: frames) :
    Ready s :=
  ⟨hmode, fun members rest e => by rw [hnested] at e; cases e⟩

theorem complete_array {s : State} {items : List Reading} {frames : List Frame}
    (hnested : s.nested = .array items :: frames) (value : Reading) :
    s.complete value = { s with nested := .array (value :: items) :: frames, mode := .after } := by
  rw [State.complete, hnested]

theorem step_bracket (s : State) (items : List Reading) {mode : Mode}
    (h : mode = .itemOrEnd ∨ mode = .after) :
    State.step { s with nested := .array items :: s.nested, mode } ']' =
      s.complete (.array items.reverse none) := by
  rcases h with rfl | rfl <;> exact complete_eq_of_nested rfl rfl _

theorem step_brace (s : State) (members : List (Option String × Reading)) {mode : Mode}
    (h : mode = .keyOrEnd ∨ mode = .after) :
    State.step { s with nested := .object members none :: s.nested, mode } '}' =
      s.complete (.object members.reverse none) := by
  rcases h with rfl | rfl <;> exact complete_eq_of_nested rfl rfl _

theorem isDelimiter_comma : IsDelimiter ',' := .inr (.inl rfl)

theorem isDelimiter_bracket : IsDelimiter ']' := .inr (.inr (.inl rfl))

theorem isDelimiter_brace : IsDelimiter '}' := .inr (.inr (.inr rfl))

mutual

-- The recursion is on the derivation of the spelling, not on the text.

theorem Spelled.settles : ∀ {value : Reading} {text : List Char}, Spelled value text →
    ∀ {s : State}, Ready s → Settles (text.foldl State.step s) (s.complete value)
  | _, _, .null, s, h => settles_word h rfl (by decide) (by decide) rfl
  | _, _, .true, s, h => settles_word h rfl (by decide) (by decide) rfl
  | _, _, .false, s, h => settles_word h rfl (by decide) (by decide) rfl
  | _, _, .integer hword, s, h => by
      have hnumber := isNumber_writeNumber hword
      rw [writeNumber_integer] at hnumber
      rw [← ofNumber_of_isWord hword]
      exact settles_isNumber h hnumber
  | _, _, .inexact hnumber _, s, h => settles_isNumber h hnumber
  | _, _, .string hbody, s, h => settles_string h hbody
  | _, _, .emptyArray hgap, s, h => by
      rw [List.foldl_cons, h.step_open, List.foldl_append,
        foldl_blank (fun c hc => by simp [State.step, hc]) hgap]
      exact .of_eq (step_bracket s [] (.inl rfl))
  | _, _, @Spelled.array items _ hitems, s, h => by
      have hbody := hitems.settles
        (s := { s with nested := .array [] :: s.nested, mode := .itemOrEnd }) (.inr rfl) rfl
      have hclose := step_bracket s items.reverse (.inr rfl)
      rw [List.reverse_reverse] at hclose
      rw [List.foldl_cons, h.step_open, List.foldl_append, List.foldl_cons,
        hbody.step _ isDelimiter_bracket]
      exact .of_eq hclose
  | _, _, .emptyObject hgap, s, h => by
      rw [List.foldl_cons, h.step_openObject, List.foldl_append,
        foldl_blank (fun c hc => by simp [State.step, hc]) hgap]
      exact .of_eq (step_brace s [] (.inl rfl))
  | _, _, @Spelled.object members _ hmembers, s, h => by
      have hbody := hmembers.settles
        (s := { s with nested := .object [] none :: s.nested, mode := .keyOrEnd }) (.inr rfl) rfl
      have hclose := step_brace s members.reverse (.inr rfl)
      rw [List.reverse_reverse] at hclose
      rw [List.foldl_cons, h.step_openObject, List.foldl_append, List.foldl_cons,
        hbody.step _ isDelimiter_brace]
      exact .of_eq hclose

theorem PaddedSpelled.settles : ∀ {value : Reading} {text : List Char}, PaddedSpelled value text →
    ∀ {s : State}, Ready s → Settles (text.foldl State.step s) (s.complete value)
  | _, _, .mk hbefore hvalue hafter, s, h => by
      rw [List.foldl_append, List.foldl_append, foldl_blank (fun _ => h.step_space) hbefore]
      exact (hvalue.settles h).foldl_blank (complete_mode h _) hafter

theorem ItemsSpelled.settles : ∀ {items : List Reading} {body : List Char},
    ItemsSpelled items body → ∀ {s : State} {frames : List Frame},
      (s.mode = .value ∨ s.mode = .itemOrEnd) → s.nested = .array [] :: frames →
        Settles (body.foldl State.step s)
          { s with nested := .array items.reverse :: frames, mode := .after }
  | _, _, .one hvalue, s, frames, hmode, hnested => by
      have hone := hvalue.settles (ready_array hmode hnested)
      rw [complete_array hnested] at hone
      exact hone
  | _, _, @ItemsSpelled.more items _ _ _ hitems hvalue, s, frames, hmode, hnested => by
      have hone := hvalue.settles
        (ready_array (s := { s with nested := .array items.reverse :: frames, mode := .value })
          (.inl rfl) rfl)
      rw [complete_array rfl] at hone
      rw [List.foldl_append, List.foldl_cons,
        (hitems.settles hmode hnested).step _ isDelimiter_comma, List.reverse_append]
      exact hone

theorem MembersSpelled.settles : ∀ {members : List (Option String × Reading)} {body : List Char},
    MembersSpelled members body → ∀ {s : State} {frames : List Frame},
      (s.mode = .key ∨ s.mode = .keyOrEnd) → s.nested = .object [] none :: frames →
        Settles (body.foldl State.step s)
          { s with nested := .object members.reverse none :: frames, mode := .after }
  | _, _, @MembersSpelled.one key _ _ _ hkey hvalue, s, frames, hmode, hnested => by
      have hone := hvalue.settles (ready_keyed s [] key frames)
      rw [List.append_cons, List.foldl_append, foldl_key hmode hnested hkey]
      exact hone
  | _, _, @MembersSpelled.more members body key _ _ _ hmembers hkey hvalue, s, frames, hmode,
      hnested => by
      let next : State := { s with nested := .object members.reverse none :: frames, mode := .key }
      have hcomma : (body.foldl State.step s).step ',' = next :=
        (hmembers.settles hmode hnested).step _ isDelimiter_comma
      have hone := hvalue.settles (ready_keyed next members.reverse key frames)
      rw [List.foldl_append, List.foldl_cons, hcomma, List.append_cons, List.foldl_append,
        foldl_key (s := next) (.inl rfl) rfl hkey, List.reverse_append]
      exact hone

end

theorem ofText_of_spelled {value : Reading} {text : List Char} (h : PaddedSpelled value text) :
    ofText text = ⟨value, none⟩ := by
  have hready : Ready .start := ⟨.inl rfl, fun _ _ e => by cases e⟩
  calc
    ofText text = (State.start.complete value).finish := (h.settles hready).finish
    _ = ⟨value, none⟩ := rfl

end HtmlIds.Reading
