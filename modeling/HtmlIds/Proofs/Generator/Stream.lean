import HtmlIds.Proofs.Generator.Header
import HtmlIds.Proofs.Json.Document

namespace HtmlIds.Frame

structure Message where
  value : Json
  leading : List Line
  before : List Line
  carriage : Bool
  after : List Line
  gap : Line
  text : List Char
  trailing : List Line
  leading_blank : ∀ line ∈ leading, line.IsBlank
  before_other : ∀ line ∈ before, line.IsOther
  after_other : ∀ line ∈ after, line.IsOther
  gap_blank : gap.IsBlank
  isText : value.IsText text
  trailing_blank : ∀ line ∈ trailing, line.IsBlank

namespace Message

variable (message : Message)

def body : List UInt8 :=
  bytesOf message.text

def opening : List UInt8 :=
  message.leading.flatMap Line.bytes ++ message.before.flatMap Line.bytes

def lengthLine : Line :=
  .ofLength message.body.length message.carriage

def fields : List UInt8 :=
  message.opening ++ message.lengthLine.bytes ++ message.after.flatMap Line.bytes

def head : List UInt8 :=
  message.fields ++ message.gap.bytes

def tail : List UInt8 :=
  message.trailing.flatMap Line.bytes

theorem leads_opening : Leads none message.opening none := by
  have hleading := leads_lines fun line hline => (message.leading_blank line hline).leads
  have hbefore := leads_lines fun line hline => (message.before_other line hline).leads none
  exact hleading.append hbefore

theorem leads_tail : Leads none message.tail none :=
  leads_lines fun line hline => (message.trailing_blank line hline).leads

theorem opening_prefix_head : message.opening ++ message.lengthLine.bytes <+: message.head := by
  rw [head, fields, List.append_assoc _ _ message.gap.bytes]
  exact List.prefix_append ..

theorem cut_opening {part : List UInt8} (hpart : part <+: message.head ++ message.body)
    (hopening : ¬message.opening ++ message.lengthLine.bytes <+: part) :
    EndsInHead none part none := by
  have hstart := message.opening_prefix_head.trans (List.prefix_append message.head message.body)
  have hwithin := (List.prefix_or_prefix_of_prefix hpart hstart).resolve_right hopening
  exact message.leads_opening.cut_line message.lengthLine hwithin fun heq =>
    hopening (heq ▸ List.prefix_refl part)

theorem read_of_overlong (h : lengthLimit ≤ message.body.length) (rest : List UInt8) :
    read (message.opening ++ message.lengthLine.bytes ++ rest) =
      (.error (overlong message.body.length), rest) := by
  rw [List.append_assoc, read, message.leads_opening.passes, lengthLine, readHeaders_overlong h]

section IsWord

variable {message} (h : message.body.length < lengthLimit)

include h

theorem leads_fields : Leads none message.fields (some message.body.length) := by
  have hafter := leads_lines fun line hline =>
    (message.after_other line hline).leads (some message.body.length)
  exact (message.leads_opening.append (leads_ofLength h message.carriage)).append hafter

theorem readHeaders_head (rest : List UInt8) :
    readHeaders [] none (message.head ++ rest) = (.ok (some message.body.length), rest) := by
  rw [head, List.append_assoc, (leads_fields h).passes, message.gap_blank.ends]

theorem cut_head {part : List UInt8} (hpart : part <+: message.head ++ message.body)
    (hhead : ¬message.head <+: part) : EndsInHead none part (some message.body.length) := by
  have hwithin := (List.prefix_or_prefix_of_prefix hpart (List.prefix_append ..)).resolve_right hhead
  exact (leads_fields h).cut_line message.gap hwithin fun heq => hhead (heq ▸ List.prefix_refl part)

theorem read_of_noBuffer (hlarge : bufferLimit ≤ message.body.length) (rest : List UInt8) :
    read (message.head ++ rest) = (.error .noBuffer, rest) := by
  rw [read, readHeaders_head h]
  simp only [if_pos hlarge]

end IsWord

end Message

structure Framed extends Message where
  fits : toMessage.body.length < bufferLimit

namespace Framed

variable (message : Framed)

def bytes : List UInt8 :=
  message.head ++ message.body ++ message.tail

theorem isWord_length : message.body.length < lengthLimit :=
  Nat.lt_trans message.fits (by decide)

theorem readBody_body : readBody message.body = .ok message.value := by
  rw [Message.body, readBody, fromUTF8?_bytesOf]
  simp only [String.toList_ofList, Json.parse_eq_ok_iff.2 message.isText]
  rfl

theorem read_message (rest : List UInt8) :
    read (message.head ++ message.body ++ rest) = (.ok (some message.value), rest) := by
  have hlength : ¬(message.body ++ rest).length < message.body.length := by simp
  rw [List.append_assoc, read, Message.readHeaders_head message.isWord_length]
  simp only [if_neg (Nat.not_le_of_lt message.fits), if_neg hlength, List.take_left, List.drop_left,
    message.readBody_body]
  rfl

theorem read_cut_body {part : List UInt8} (hpart : part <+: message.body)
    (hne : part ≠ message.body) : read (message.head ++ part) = (.error .cutShort, []) := by
  have hlength : part.length < message.body.length :=
    Nat.lt_of_le_of_ne hpart.length_le fun heq => hne (hpart.eq_of_length heq)
  rw [read, Message.readHeaders_head message.isWord_length]
  simp only [if_neg (Nat.not_le_of_lt message.fits), if_pos hlength]

end Framed

def calls : Nat → List UInt8 → List (Except FrameError (Option Json))
  | 0, _ => []
  | n + 1, stream => (read stream).1 :: calls n (read stream).2

theorem calls_nil (n : Nat) : calls n [] = List.replicate n (.ok none) := by
  induction n with
  | zero => rfl
  | succ n ih => exact congrArg (Except.ok none :: ·) ih

theorem Leads.read {part : List UInt8} (h : Leads none part none) (rest : List UInt8) :
    read (part ++ rest) = read rest := by
  rw [Frame.read, h.passes, Frame.read]

theorem Leads.calls {part : List UInt8} (h : Leads none part none) (n : Nat) (rest : List UInt8) :
    calls n (part ++ rest) = calls n rest := by
  cases n with
  | zero => rfl
  | succ n => rw [Frame.calls, h.read, Frame.calls]

def returned (messages : List Framed) : List (Except FrameError (Option Json)) :=
  messages.map fun message => .ok (some message.value)

theorem calls_messages (messages : List Framed) (n : Nat) (rest : List UInt8) :
    calls (messages.length + n) (messages.flatMap Framed.bytes ++ rest) =
      returned messages ++ calls n rest := by
  induction messages with
  | nil => rw [List.length_nil, Nat.zero_add]; rfl
  | cons message messages ih =>
      have hlength : (message :: messages).length + n = messages.length + n + 1 := by
        rw [List.length_cons]
        omega
      have hbytes : (message :: messages).flatMap Framed.bytes ++ rest =
          message.head ++ message.body ++
            (message.tail ++ (messages.flatMap Framed.bytes ++ rest)) := by
        simp only [List.flatMap_cons, Framed.bytes, List.append_assoc]
      rw [hlength, hbytes, calls, message.read_message, message.leads_tail.calls, ih]
      rfl

def IsNoMessage (result : Except FrameError (Option Json)) : Prop :=
  result = .ok none ∨ ∃ problem, result = .error problem

theorem EndsInHead.read {stream : List UInt8} {next : Option Nat} (h : EndsInHead none stream next) :
    ∃ result, read stream = (result, []) ∧ IsNoMessage result ∧
      (result = .error .noBuffer → ∃ size, next = some size ∧ bufferLimit ≤ size) := by
  rcases hread : readHeaders [] none stream with ⟨problem | (_ | size), rest⟩ <;>
    obtain rfl : rest = [] := by simpa [hread] using h.nothing
  all_goals rw [Frame.read, hread]
  · have hpanic := isPanic_eq_false_of_readHeaders (congrArg Prod.fst hread)
    refine ⟨_, rfl, .inr ⟨problem, rfl⟩, fun hproblem => ?_⟩
    cases hproblem
    cases hpanic
  · exact ⟨_, rfl, .inl rfl, nofun⟩
  · have hknown := h.known size (congrArg Prod.fst hread)
    dsimp only
    split
    · next hlarge => exact ⟨_, rfl, .inr ⟨.noBuffer, rfl⟩, fun _ => ⟨size, hknown, hlarge⟩⟩
    · -- a length is all that is there, and no text is the text of a value without any bytes
      cases size with
      | zero => exact ⟨_, rfl, .inr ⟨.notJson .truncated, rfl⟩, nofun⟩
      | succ size => exact ⟨_, rfl, .inr ⟨.cutShort, rfl⟩, nofun⟩

def largeError (length : Nat) : FrameError :=
  if length < lengthLimit then .noBuffer else overlong length

theorem Message.read_large (message : Message) (hlarge : bufferLimit ≤ message.body.length)
    {part : List UInt8} (hpart : part <+: message.head ++ message.body) :
    IsNoMessage (read part).1 ∧
      (message.head <+: part → (read part).1 = .error (largeError message.body.length)) := by
  rw [largeError]
  split
  · next hword =>
      by_cases hhead : message.head <+: part
      · obtain ⟨rest, rfl⟩ := hhead
        rw [read_of_noBuffer hword hlarge]
        exact ⟨.inr ⟨_, rfl⟩, fun _ => rfl⟩
      · obtain ⟨result, hread, hresult, -⟩ := (cut_head hword hpart hhead).read
        rw [hread]
        exact ⟨hresult, fun h => absurd h hhead⟩
  · next hword =>
      by_cases hopening : message.opening ++ message.lengthLine.bytes <+: part
      · obtain ⟨rest, rfl⟩ := hopening
        rw [message.read_of_overlong (Nat.le_of_not_lt hword)]
        exact ⟨.inr ⟨_, rfl⟩, fun _ => rfl⟩
      · obtain ⟨result, hread, hresult, -⟩ := (message.cut_opening hpart hopening).read
        rw [hread]
        exact ⟨hresult, fun h => absurd (message.opening_prefix_head.trans h) hopening⟩

theorem calls_last (messages : List Framed) {part : List UInt8}
    {result : Except FrameError (Option Json)} (h : read part = (result, [])) (more : Nat) :
    calls (messages.length + (more + 1)) (messages.flatMap Framed.bytes ++ part) =
      returned messages ++ result :: List.replicate more (.ok none) := by
  rw [calls_messages, calls, h, calls_nil]

theorem exists_sizeMessage : ∃ message : Framed, message.value = .object [("größe", .int 1)] ∧
    message.bytes = bytesOf
      ("Content-Length: 14\r\nContent-Type: utf-8\r\n\r\n" ++ r#"{"größe":1}"# ++ "\n").toList := by
  refine ⟨{
    value := .object [("größe", .int 1)]
    leading := []
    before := []
    carriage := true
    after := [⟨"Content-Type: utf-8".toList, true, by decide⟩]
    gap := ⟨[], true, by decide⟩
    text := [] ++ Json.write (.object [("größe", .int 1)]) ++ ['\n']
    trailing := []
    leading_blank := by decide
    before_other := by decide
    after_other := by decide
    gap_blank := by decide
    isText := Json.isText_write (by simp [Json.IsExact, Json.HaveExact, Json.int, JsonNumber.IsWord])
      (by decide) rfl .nil (by simp [Reading.Blank, Reading.isSpace])
    fits := by decide +kernel
    trailing_blank := by decide }, rfl, ?_⟩
  decide +kernel

theorem exists_emptyMessage : ∃ message : Framed, message.value = .array [] ∧
    message.head = bytesOf " \nOrigin: é\nContent-Length: 3\n\n".toList ∧
    message.body = bytesOf " []".toList ∧ message.tail = bytesOf "\n".toList := by
  refine ⟨{
    value := .array []
    leading := [⟨[' '], false, by decide⟩]
    before := [⟨"Origin: é".toList, false, by decide⟩]
    carriage := false
    after := []
    gap := ⟨[], false, by decide⟩
    text := [' '] ++ Json.write (.array []) ++ []
    trailing := [⟨[], false, by decide⟩]
    leading_blank := by decide
    before_other := by decide
    after_other := by decide
    gap_blank := by decide
    isText := Json.isText_write (by simp [Json.IsExact, Json.AreExact]) (by decide) rfl
      (by simp [Reading.Blank, Reading.isSpace]) .nil
    fits := by decide +kernel
    trailing_blank := by decide }, rfl, ?_, ?_, ?_⟩ <;> decide +kernel

/-- The messages come back in order, and then none. If one more message follows that breaks off,
they still do: its call is answered by an error if the head is complete, and else by an error or
none. Once its body is complete the message comes back, whatever follows. A message that there is no
buffer for does not come back, complete or not; if its length is a word, the program ends at the end
of its head. -/
structure AreReturned (messages : List Framed) : Prop where
  whole : ∀ more, calls (messages.length + more) (messages.flatMap Framed.bytes) =
    returned messages ++ List.replicate more (.ok none)
  cut : ∀ (last : Framed) (part : List UInt8), part <+: last.head ++ last.body →
    part ≠ last.head ++ last.body → ∃ result,
      (∀ more, calls (messages.length + (more + 1)) (messages.flatMap Framed.bytes ++ part) =
        returned messages ++ result :: List.replicate more (.ok none)) ∧
      IsNoMessage result ∧ result ≠ .error .noBuffer ∧
      (last.head <+: part → result = .error .cutShort)
  complete : ∀ (last : Framed) (rest : List UInt8),
    calls (messages.length + 1) (messages.flatMap Framed.bytes ++ (last.head ++ last.body ++ rest)) =
      returned messages ++ [.ok (some last.value)]
  large : ∀ last : Message, bufferLimit ≤ last.body.length → ∀ part, part <+: last.head ++ last.body →
    ∃ result, calls (messages.length + 1) (messages.flatMap Framed.bytes ++ part) =
        returned messages ++ [result] ∧
      IsNoMessage result ∧ (last.head <+: part → result = .error (largeError last.body.length))

theorem messages_returned (messages : List Framed) : AreReturned messages where
  whole := by
    intro more
    have hcalls := calls_messages messages more []
    rwa [List.append_nil, calls_nil] at hcalls
  cut := by
    intro last part hpart hne
    by_cases hhead : last.head <+: part
    · obtain ⟨inside, rfl⟩ := hhead
      have hinside := (List.prefix_append_right_inj last.head).1 hpart
      have hread := last.read_cut_body hinside fun hwhole => hne (hwhole ▸ rfl)
      exact ⟨_, calls_last messages hread, .inr ⟨_, rfl⟩, nofun, fun _ => rfl⟩
    · obtain ⟨result, hread, hresult, hbuffer⟩ := (Message.cut_head last.isWord_length hpart hhead).read
      refine ⟨result, calls_last messages hread, hresult, fun heq => ?_, fun h => absurd h hhead⟩
      obtain ⟨size, hsize, hlarge⟩ := hbuffer heq
      cases hsize
      exact Nat.not_le_of_lt last.fits hlarge
  complete := by
    intro last rest
    rw [calls_messages, calls, last.read_message]
    rfl
  large := by
    intro last hlarge part hpart
    obtain ⟨hresult, hhead⟩ := last.read_large hlarge hpart
    exact ⟨_, calls_messages messages 1 part, hresult, hhead⟩

theorem exists_spacedMessage (spaces : Nat) : ∃ message : Message,
    message.body.length = spaces + 2 ∧ message.head =
      bytesOf (lengthName ++ ' ' :: Nat.toDigits 10 (spaces + 2) ++ "\r\n\r\n".toList) := by
  have hspaces : bytesOf (List.replicate spaces ' ') = List.replicate spaces 32 := by
    induction spaces with
    | zero => rfl
    | succ spaces ih => exact congrArg (32 :: ·) ih
  have hlength : (bytesOf (List.replicate spaces ' ' ++ ['[', ']'])).length = spaces + 2 := by
    rw [bytesOf_append, hspaces, List.length_append, List.length_replicate]
    rfl
  refine ⟨{
    value := .array []
    leading := []
    before := []
    carriage := true
    after := []
    gap := ⟨[], true, by decide⟩
    text := List.replicate spaces ' ' ++ ['[', ']']
    trailing := []
    leading_blank := by decide
    before_other := by decide
    after_other := by decide
    gap_blank := by decide
    isText := by
      have hblank : Reading.Blank (List.replicate spaces ' ') := fun c hc => by
        rw [List.eq_of_mem_replicate hc]
        rfl
      have hexact : (Json.array []).IsExact := by simp [Json.IsExact, Json.AreExact]
      have htext := Json.isText_write hexact (by decide) rfl hblank .nil
      rwa [List.append_nil] at htext
    trailing_blank := by decide }, hlength, ?_⟩
  simp only [Message.head, Message.fields, Message.opening, Message.lengthLine, Message.body, hlength,
    Line.bytes, Line.ofLength, Line.ending, List.flatMap_nil, List.nil_append, List.append_nil, if_true,
    ← bytesOf_append, List.append_assoc]
  rfl

theorem unbuffered_message_panics : ∃ last : Message,
    last.head = bytesOf "Content-Length: 9223372036854775808\r\n\r\n".toList ∧
      last.body.length = 9223372036854775808 ∧ calls 1 last.head = [.error .noBuffer] ∧
      FrameError.noBuffer.isPanic = true := by
  obtain ⟨last, hlength, hhead⟩ := exists_spacedMessage 9223372036854775806
  have hread := Message.read_of_noBuffer (by rw [hlength]; decide) (by rw [hlength]; decide) []
  refine ⟨last, ?_, hlength, ?_, rfl⟩
  · rw [hhead]
    decide +kernel
  · rw [List.append_nil] at hread
    rw [calls, hread]
    rfl

theorem messages_returned_padded :
    let first :=
      ("Content-Length: 14\r\nContent-Type: utf-8\r\n\r\n" ++ r#"{"größe":1}"# ++ "\n").toList
    let head := " \nOrigin: é\nContent-Length: 3\n\n".toList
    let object := Json.object [("größe", .int 1)]
    calls 3 (bytesOf first ++ (bytesOf head ++ bytesOf " []".toList ++ bytesOf "\n".toList)) =
        [.ok (some object), .ok (some (.array [])), .ok none] ∧
      calls 2 (bytesOf first ++ (bytesOf head ++ bytesOf " [".toList)) =
        [.ok (some object), .error .cutShort] := by
  obtain ⟨size, hvalue, hbytes⟩ := exists_sizeMessage
  obtain ⟨empty, hempty, hhead, hbody, htail⟩ := exists_emptyMessage
  intro first head object
  have hpart : bytesOf head ++ bytesOf " [".toList <+: empty.head ++ empty.body := by
    rw [hhead, hbody]
    decide +kernel
  have hne : bytesOf head ++ bytesOf " [".toList ≠ empty.head ++ empty.body := by
    rw [hhead, hbody]
    decide +kernel
  obtain ⟨result, hcut, -, -, hresult⟩ := (messages_returned [size]).cut empty _ hpart hne
  rw [hresult (hhead ▸ List.prefix_append ..)] at hcut
  have hlast := hcut 0
  have hwhole := (messages_returned [size, empty]).whole 1
  rw [List.flatMap_cons, List.flatMap_nil, List.append_nil, hbytes, returned, List.map_singleton,
    hvalue] at hlast
  rw [List.flatMap_cons, List.flatMap_cons, List.flatMap_nil, List.append_nil, hbytes, Framed.bytes,
    hhead, hbody, htail, returned, List.map_cons, List.map_singleton, hvalue, hempty] at hwhole
  exact ⟨hwhole, hlast⟩

end HtmlIds.Frame
