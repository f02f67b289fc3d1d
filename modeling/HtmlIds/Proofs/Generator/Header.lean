import HtmlIds.Generator.Frame
import HtmlIds.Proofs.Json.Number
import HtmlIds.Proofs.Text.Bytes
import HtmlIds.Proofs.Text.Run

namespace HtmlIds.Frame

structure Line where
  text : List Char
  carriage : Bool
  single : '\n' ∉ text

namespace Line

def ending (line : Line) : List Char :=
  if line.carriage then ['\r', '\n'] else ['\n']

def bytes (line : Line) : List UInt8 :=
  bytesOf (line.text ++ line.ending)

def IsBlank (line : Line) : Prop :=
  ∀ c ∈ line.text, isBlank c = true

structure IsOther (line : Line) : Prop where
  visible : ¬line.IsBlank
  unrelated : ¬lengthName <+: line.text

instance (line : Line) : Decidable line.IsBlank :=
  List.decidableBAll (HtmlIds.isBlank · = true) line.text

instance (line : Line) : Decidable line.IsOther :=
  decidable_of_iff (¬line.IsBlank ∧ ¬lengthName <+: line.text)
    ⟨fun h => ⟨h.1, h.2⟩, fun h => ⟨h.visible, h.unrelated⟩⟩

theorem newline_not_mem_length (length : Nat) :
    '\n' ∉ lengthName ++ ' ' :: Nat.toDigits 10 length := by
  intro h
  rcases List.mem_append.1 h with hname | hrest
  · exact absurd hname (by decide)
  rcases List.mem_cons.1 hrest with hspace | hdigit
  · exact absurd hspace (by decide)
  · exact absurd (JsonNumber.isDigit_of_mem_toDigits hdigit) (by decide)

def ofLength (length : Nat) (carriage : Bool) : Line :=
  ⟨lengthName ++ ' ' :: Nat.toDigits 10 length, carriage, newline_not_mem_length length⟩

theorem isBlank_ending (line : Line) : ∀ c ∈ line.ending, HtmlIds.isBlank c = true := by
  rw [ending]
  split <;> simp [HtmlIds.isBlank, blankRanges]

theorem exists_bytes_eq (line : Line) : ∃ body, 10 ∉ body ∧ line.bytes = body ++ [10] := by
  have hend : bytesOf ['\n'] = [10] := rfl
  cases hcarriage : line.carriage with
  | true =>
      refine ⟨bytesOf (line.text ++ ['\r']), ?_, ?_⟩
      · rw [mem_bytesOf_iff]
        simp [line.single]
      · rw [bytes, ending, hcarriage, ← hend, ← bytesOf_append, List.append_assoc]
        rfl
  | false =>
      refine ⟨bytesOf line.text, mt mem_bytesOf_iff.1 line.single, ?_⟩
      rw [bytes, ending, hcarriage, ← hend, ← bytesOf_append]
      rfl

end Line

section Reading

theorem trimRight_line (line : Line) : trimRight (line.text ++ line.ending) = trimRight line.text :=
  trimRight_append_blank line.isBlank_ending line.text

theorem Line.IsBlank.readHeader {line : Line} (h : line.IsBlank) :
    readHeader line.bytes = .ok .blank := by
  simp only [Line.bytes, Frame.readHeader, fromUTF8?_bytesOf, String.toList_ofList, trimRight_line,
    if_pos (trimRight_eq_nil_iff.2 h)]

theorem Line.IsOther.readHeader {line : Line} (h : line.IsOther) :
    readHeader line.bytes = .ok .other := by
  have hname : ¬lengthName.isPrefixOf (trimRight line.text) = true := fun hname =>
    h.unrelated ((List.isPrefixOf_iff_prefix.1 hname).trans (trimRight_prefix_self line.text))
  simp only [Line.bytes, Frame.readHeader, fromUTF8?_bytesOf, String.toList_ofList, trimRight_line,
    if_neg (mt trimRight_eq_nil_iff.1 h.visible), if_neg hname]

theorem le_foldl_digits (digits : List Char) (value : Nat) :
    value ≤ digits.foldl (fun value c => 10 * value + JsonNumber.digitValue c) value := by
  induction digits generalizing value with
  | nil => exact Nat.le_refl value
  | cons c rest ih =>
      refine Nat.le_trans ?_ (ih (10 * value + JsonNumber.digitValue c))
      omega

theorem readDigits_eq {digits : List Char} (hdigits : ∀ c ∈ digits, c.isDigit = true) {value : Nat}
    (hvalue : value < lengthLimit) :
    readDigits digits value =
      if digits.foldl (fun value c => 10 * value + JsonNumber.digitValue c) value < lengthLimit then
        .ok (digits.foldl (fun value c => 10 * value + JsonNumber.digitValue c) value)
      else .error .tooLarge := by
  induction digits generalizing value with
  | nil => exact (if_pos hvalue).symm
  | cons c rest ih =>
      obtain ⟨hc, hrest⟩ := List.forall_mem_cons.1 hdigits
      simp only [readDigits, hc, Bool.not_true, Bool.false_eq_true, if_false]
      by_cases hnext : 10 * value + (c.toNat - 48) < lengthLimit
      · rw [if_pos hnext]
        exact ih hrest hnext
      · have hlarge : ¬rest.foldl (fun value c => 10 * value + JsonNumber.digitValue c)
            (10 * value + JsonNumber.digitValue c) < lengthLimit := fun hlt =>
          hnext (Nat.lt_of_le_of_lt (le_foldl_digits rest _) hlt)
        rw [if_neg hnext, List.foldl_cons, if_neg hlarge]

theorem readLength_toDigits (length : Nat) :
    readLength (Nat.toDigits 10 length) =
      if length < lengthLimit then .ok length else .error .tooLarge := by
  have hvalue := JsonNumber.digitsValue_toDigits length
  obtain ⟨c, rest, heq, hc, hrest, -⟩ := JsonNumber.exists_toDigits length
  rw [heq] at hvalue ⊢
  have hplus : c ≠ '+' := by
    rintro rfl
    cases hc
  have hread : readLength (c :: rest) = readDigits (c :: rest) 0 := by
    unfold readLength
    split
    · next hnil => cases hnil
    · next hsign => exact absurd (List.cons.inj hsign).1 hplus
    · next hsign => exact absurd (List.cons.inj hsign).1 hplus
    · rfl
  rw [JsonNumber.digitsValue] at hvalue
  rw [hread, readDigits_eq (List.forall_mem_cons.2 ⟨hc, hrest⟩) (by decide), hvalue]

theorem isBlank_eq_false_of_isDigit {c : Char} (h : c.isDigit = true) : isBlank c = false := by
  obtain ⟨hlow, hhigh⟩ : 48 ≤ c.toNat ∧ c.toNat ≤ 57 := Char.isDigit_iff_toNat.1 h
  simp [isBlank, blankRanges]
  omega

theorem trimRight_toDigits (front : List Char) (length : Nat) :
    trimRight (front ++ Nat.toDigits 10 length) = front ++ Nat.toDigits 10 length := by
  rcases List.eq_nil_or_concat (Nat.toDigits 10 length) with hnil | ⟨digits, last, heq⟩
  · exact absurd hnil Nat.toDigits_ne_nil
  have hlast : last.isDigit = true := by
    apply JsonNumber.isDigit_of_mem_toDigits (n := length)
    simp [heq]
  rw [heq, List.concat_eq_append, ← List.append_assoc]
  exact trimRight_concat (isBlank_eq_false_of_isDigit hlast) _

theorem trim_toDigits (length : Nat) :
    trim (' ' :: Nat.toDigits 10 length) = Nat.toDigits 10 length := by
  obtain ⟨c, rest, heq, hc, -⟩ := JsonNumber.exists_toDigits length
  have hleft : trimLeft (' ' :: Nat.toDigits 10 length) = Nat.toDigits 10 length := by
    have hspace : isBlank ' ' = true := by decide
    rw [heq, trimLeft, List.dropWhile_cons_of_pos hspace,
      List.dropWhile_cons_of_neg (by simp [isBlank_eq_false_of_isDigit hc])]
  rw [trim, hleft]
  exact trimRight_toDigits [] length

def overlong (length : Nat) : FrameError :=
  .badLength (String.ofList (lengthName ++ ' ' :: Nat.toDigits 10 length)) .tooLarge

theorem readHeader_ofLength (length : Nat) (carriage : Bool) :
    readHeader (Line.ofLength length carriage).bytes =
      if length < lengthLimit then .ok (.length length) else .error (overlong length) := by
  have htrimmed : trimRight (Line.ofLength length carriage).text =
      lengthName ++ ' ' :: Nat.toDigits 10 length := by
    have hkept := trimRight_toDigits (lengthName ++ [' ']) length
    rwa [List.append_assoc] at hkept
  have hname : lengthName.isPrefixOf (lengthName ++ ' ' :: Nat.toDigits 10 length) = true :=
    List.isPrefixOf_iff_prefix.2 (List.prefix_append ..)
  have hvisible : lengthName ++ ' ' :: Nat.toDigits 10 length ≠ [] := by simp
  by_cases hfits : length < lengthLimit
  all_goals
    simp only [Line.bytes, readHeader, fromUTF8?_bytesOf, String.toList_ofList, trimRight_line,
      htrimmed, if_neg hvisible, if_pos hname, List.drop_left, trim_toDigits, readLength_toDigits,
      hfits, if_true, if_false, overlong]

theorem isPanic_eq_false_of_readHeader {line : List UInt8} {problem : FrameError}
    (h : readHeader line = .error problem) : problem.isPanic = false := by
  unfold readHeader at h
  split at h
  · cases h
    rfl
  · dsimp only at h
    split at h
    · cases h
    · split at h
      · split at h <;> cases h
        rfl
      · cases h

theorem isPanic_eq_false_of_readHeaders {line stream : List UInt8} {length : Option Nat}
    {problem : FrameError} (h : (readHeaders line length stream).1 = .error problem) :
    problem.isPanic = false := by
  fun_induction readHeaders line length stream with
  | case1 | case3 | case4 | case7 => cases h
  | case2 _ _ _ _ hline | case6 _ _ _ _ _ _ hline =>
      cases h
      exact isPanic_eq_false_of_readHeader hline
  | case5 _ _ _ _ _ ih | case8 _ _ _ _ _ ih | case9 _ _ _ _ _ _ _ ih | case10 _ _ _ _ _ _ ih =>
      exact ih h

end Reading

section Lines

variable {length : Option Nat} {line : Line} {lines : List Line}

theorem readHeaders_byte {byte : UInt8} (h : byte ≠ 10) (gathered : List UInt8)
    (length : Option Nat) (rest : List UInt8) :
    readHeaders gathered length (byte :: rest) = readHeaders (byte :: gathered) length rest := by
  cases length <;> rw [readHeaders, if_pos h]

theorem readHeaders_open {part : List UInt8} (h : 10 ∉ part) (gathered : List UInt8)
    (length : Option Nat) (rest : List UInt8) :
    readHeaders gathered length (part ++ rest) = readHeaders (part.reverse ++ gathered) length rest := by
  induction part generalizing gathered with
  | nil => rfl
  | cons byte part ih =>
      rw [List.mem_cons, not_or] at h
      rw [List.cons_append, readHeaders_byte (Ne.symm h.1), ih h.2, List.reverse_cons,
        List.append_assoc]
      rfl

theorem readHeaders_line (line : Line) (length : Option Nat) (rest : List UInt8) :
    readHeaders [] length (line.bytes ++ rest) =
      match readHeader line.bytes with
      | .error problem => (.error problem, rest)
      | .ok .blank =>
        match length with
        | some size => (.ok (some size), rest)
        | none => readHeaders [] none rest
      | .ok (.length size) => readHeaders [] (some size) rest
      | .ok .other => readHeaders [] length rest := by
  obtain ⟨body, hopen, heq⟩ := line.exists_bytes_eq
  have hread : readHeaders [] length (line.bytes ++ rest) =
      readHeaders body.reverse length (10 :: rest) := by
    rw [heq, List.append_assoc, readHeaders_open hopen, List.append_nil]
    rfl
  have hline : (10 :: body.reverse).reverse = line.bytes := by
    rw [heq, List.reverse_cons, List.reverse_reverse]
  rcases hheader : readHeader line.bytes with problem | (_ | size | _) <;> cases length <;>
    rw [hread, readHeaders, if_neg (by simp), hline, hheader]

theorem Line.IsBlank.ends (h : line.IsBlank) (size : Nat) (rest : List UInt8) :
    readHeaders [] (some size) (line.bytes ++ rest) = (.ok (some size), rest) := by
  rw [readHeaders_line, h.readHeader]

theorem Line.IsBlank.skipped (h : line.IsBlank) (rest : List UInt8) :
    readHeaders [] none (line.bytes ++ rest) = readHeaders [] none rest := by
  rw [readHeaders_line, h.readHeader]

theorem Line.IsOther.skipped (h : line.IsOther) (length : Option Nat) (rest : List UInt8) :
    readHeaders [] length (line.bytes ++ rest) = readHeaders [] length rest := by
  rw [readHeaders_line, h.readHeader]

theorem readHeaders_ofLength {size : Nat} (h : size < lengthLimit) (carriage : Bool)
    (length : Option Nat) (rest : List UInt8) :
    readHeaders [] length ((Line.ofLength size carriage).bytes ++ rest) =
      readHeaders [] (some size) rest := by
  rw [readHeaders_line, readHeader_ofLength, if_pos h]

theorem readHeaders_overlong {size : Nat} (h : lengthLimit ≤ size) (carriage : Bool)
    (length : Option Nat) (rest : List UInt8) :
    readHeaders [] length ((Line.ofLength size carriage).bytes ++ rest) =
      (.error (overlong size), rest) := by
  rw [readHeaders_line, readHeader_ofLength, if_neg (Nat.not_lt_of_le h)]

structure EndsInHead (length : Option Nat) (part : List UInt8) (next : Option Nat) : Prop where
  nothing : (readHeaders [] length part).2 = []
  known : ∀ size, (readHeaders [] length part).1 = .ok (some size) → next = some size

theorem EndsInHead.mono {next last : Option Nat} {part : List UInt8}
    (h : EndsInHead length part next) (hkeeps : ∀ size, next = some size → last = some size) :
    EndsInHead length part last where
  nothing := h.nothing
  known := fun size hsize => hkeeps size (h.known size hsize)

theorem Line.cut (line : Line) {part : List UInt8} (hpart : part <+: line.bytes)
    (hne : part ≠ line.bytes) (length : Option Nat) : EndsInHead length part length := by
  obtain ⟨body, hopen, heq⟩ := line.exists_bytes_eq
  rw [heq] at hpart hne
  have hwithin := (List.prefix_concat_iff.1 hpart).resolve_left hne
  have hread := readHeaders_open (fun hmem => hopen (hwithin.subset hmem)) [] length []
  rw [List.append_nil, List.append_nil] at hread
  constructor <;> rw [hread, readHeaders]
  · split
    · rfl
    · split <;> rfl
  · intro size hsize
    split at hsize
    · cases hsize
    · split at hsize
      · cases hsize
      · exact Except.ok.inj hsize
      · cases hsize

structure Leads (length : Option Nat) (part : List UInt8) (next : Option Nat) : Prop where
  passes : ∀ rest, readHeaders [] length (part ++ rest) = readHeaders [] next rest
  keeps : ∀ size, length = some size → next = some size
  cut : ∀ front, front <+: part → EndsInHead length front next

theorem Leads.nil (length : Option Nat) : Leads length [] length where
  passes := fun _ => rfl
  keeps := fun _ hsize => hsize
  cut := by
    intro front hfront
    rw [List.prefix_nil.1 hfront]
    exact ⟨rfl, fun size hsize => nomatch hsize⟩

theorem Leads.append {next last : Option Nat} {part more : List UInt8} (h : Leads length part next)
    (hmore : Leads next more last) : Leads length (part ++ more) last where
  passes := by
    intro rest
    rw [List.append_assoc, h.passes, hmore.passes]
  keeps := fun size hsize => hmore.keeps size (h.keeps size hsize)
  cut := by
    intro front hfront
    rcases prefix_append_cases hfront with hwithin | ⟨rest, rfl, hrest⟩
    · exact (h.cut front hwithin).mono hmore.keeps
    · have hcut := hmore.cut rest hrest
      exact ⟨by rw [h.passes, hcut.nothing], fun size hsize => hcut.known size (h.passes rest ▸ hsize)⟩

theorem Leads.cut_line {next : Option Nat} {part front : List UInt8} (h : Leads length part next)
    (line : Line) (hfront : front <+: part ++ line.bytes) (hne : front ≠ part ++ line.bytes) :
    EndsInHead length front next := by
  rcases prefix_append_cases hfront with hopen | ⟨rest, rfl, hrest⟩
  · exact h.cut front hopen
  · have hcut := line.cut hrest (fun heq => hne (heq ▸ rfl)) next
    have hpasses := h.passes rest
    exact ⟨hpasses ▸ hcut.nothing, hpasses ▸ hcut.known⟩

theorem leads_line {next : Option Nat} (hkeeps : ∀ size, length = some size → next = some size)
    (h : ∀ rest, readHeaders [] length (line.bytes ++ rest) = readHeaders [] next rest) :
    Leads length line.bytes next where
  passes := h
  keeps := hkeeps
  cut := by
    intro front hfront
    by_cases heq : front = line.bytes
    · have hread := h []
      rw [List.append_nil] at hread
      subst heq
      constructor <;> rw [hread]
      · rfl
      · exact fun size hsize => nomatch hsize
    · exact (line.cut hfront heq length).mono hkeeps

theorem Line.IsBlank.leads (h : line.IsBlank) : Leads none line.bytes none :=
  leads_line (fun _ hsize => hsize) h.skipped

theorem Line.IsOther.leads (h : line.IsOther) (length : Option Nat) : Leads length line.bytes length :=
  leads_line (fun _ hsize => hsize) (h.skipped length)

theorem leads_ofLength {size : Nat} (h : size < lengthLimit) (carriage : Bool) :
    Leads none (Line.ofLength size carriage).bytes (some size) :=
  leads_line (fun _ hsize => nomatch hsize) (readHeaders_ofLength h carriage none)

theorem leads_lines (h : ∀ line ∈ lines, Leads length line.bytes length) :
    Leads length (lines.flatMap Line.bytes) length := by
  induction lines with
  | nil => exact .nil length
  | cons line lines ih =>
      obtain ⟨hline, hlines⟩ := List.forall_mem_cons.1 h
      rw [List.flatMap_cons]
      exact hline.append (ih hlines)

end Lines

end HtmlIds.Frame
