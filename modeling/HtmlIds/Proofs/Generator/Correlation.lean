import HtmlIds.Generator.Service
import HtmlIds.Proofs.Generator.Stream

namespace HtmlIds.Service

open HtmlIds.Frame (Framed Leads)

structure IsAnswer (number : Nat) (message : Json) : Prop where
  type : message.member "type" = .string "response"
  request : message.member "request_seq" = .nat number

inductive Tells (command : String) (answer : Json) : Except ServiceError Json → Prop
  | body : answer.member "success" = .bool true → Tells command answer (.ok (answer.member "body"))
  | reason {text : String} : answer.member "success" ≠ .bool true →
      answer.member "message" = .string text → Tells command answer (.error (.refused command text))
  | unknown : answer.member "success" ≠ .bool true →
      (∀ text, answer.member "message" ≠ .string text) →
        Tells command answer (.error (.refused command "unknown error"))

inductive Awaited (command : String) (number : Nat) :
    List Framed → Except ServiceError Json → List Framed → Prop
  | answered {skipped rest : List Framed} {answer : Framed} {result : Except ServiceError Json} :
      (∀ message ∈ skipped, ¬IsAnswer number message.value) → IsAnswer number answer.value →
      Tells command answer.value result →
        Awaited command number (skipped ++ answer :: rest) result rest
  | exited {messages : List Framed} : (∀ message ∈ messages, ¬IsAnswer number message.value) →
      Awaited command number messages (.error (.exited command)) []

inductive Call where
  | tell (command : String) (arguments : Json)
  | ask (command : String) (arguments : Json)

namespace Call

def line (number : Nat) : Call → String
  | .tell command arguments => encodeRequest number command arguments
  | .ask command arguments => encodeRequest number command arguments

def isAwaited : Call → Bool
  | .tell .. => false
  | .ask .. => true

end Call

def perform (service : Service) : List Call → List (Except ServiceError Json) × Service
  | [] => ([], service)
  | .tell command arguments :: calls => (service.send command arguments).perform calls
  | .ask command arguments :: calls =>
    let (result, service) := service.request command arguments
    if panics result then ([result], service)
    else
      let (results, service) := service.perform calls
      (result :: results, service)

def numbered : Nat → List Call → List (Nat × Call)
  | _, [] => []
  | number, call :: calls => (number + 1, call) :: numbered (number + 1) calls

def awaitedNumbers (number : Nat) (calls : List Call) : List Nat :=
  ((numbered number calls).filter fun (_, call) => call.isAwaited).map Prod.fst

inductive Conversation :
    Nat → List Framed → List Call → List (Except ServiceError Json) → List Framed → Prop
  | done {number : Nat} {messages : List Framed} : Conversation number messages [] [] messages
  | told {number : Nat} {messages rest : List Framed} {command : String} {arguments : Json}
      {calls : List Call} {results : List (Except ServiceError Json)} :
      Conversation (number + 1) messages calls results rest →
        Conversation number messages (.tell command arguments :: calls) results rest
  | asked {number : Nat} {messages left rest : List Framed} {command : String} {arguments : Json}
      {calls : List Call} {result : Except ServiceError Json}
      {results : List (Except ServiceError Json)} :
      Awaited command (number + 1) messages result left →
      Conversation (number + 1) left calls results rest →
        Conversation number messages (.ask command arguments :: calls) (result :: results) rest

def Hears (service : Service) (messages : List Framed) : Prop :=
  ∃ gap, Leads none gap none ∧ service.stream = gap ++ messages.flatMap Framed.bytes

variable {service : Service} {messages rest rest' : List Framed} {message : Framed} {command : String}
  {number : Nat} {result result' : Except ServiceError Json} {results : List (Except ServiceError Json)}
  {calls : List Call}

section Answers

theorem text?_eq_some_iff {value : Json} {text : String} :
    value.text? = some text ↔ value = .string text := by
  cases value <;> simp [Json.text?]

theorem int?_eq_some_iff {value : Json} {n : Int} : value.int? = some n ↔ value = .int n := by
  unfold Json.int?
  split <;> simp_all [Json.int]

theorem answers_iff {value : Json} : answers value number = true ↔ IsAnswer number value := by
  rw [answers, Bool.and_eq_true, beq_iff_eq, beq_iff_eq, text?_eq_some_iff, int?_eq_some_iff]
  exact ⟨fun ⟨htype, hrequest⟩ => ⟨htype, hrequest⟩, fun h => ⟨h.type, h.request⟩⟩

instance (value : Json) : Decidable (IsAnswer number value) :=
  decidable_of_iff _ answers_iff

theorem isTrue_iff {value : Json} : isTrue value = true ↔ value = .bool true := by
  cases value <;> simp [isTrue]

theorem tells_bodyOf (command : String) (answer : Json) :
    Tells command answer (bodyOf command answer) := by
  rw [bodyOf]
  split
  · next hsuccess => exact .body (isTrue_iff.1 hsuccess)
  · next hsuccess =>
      have hfailed := mt isTrue_iff.2 hsuccess
      cases htext : (answer.member "message").text? with
      | some text => exact .reason hfailed (text?_eq_some_iff.1 htext)
      | none =>
          refine .unknown hfailed fun text heq => ?_
          cases htext.symm.trans (text?_eq_some_iff.2 heq)

theorem Tells.eq_bodyOf {answer : Json} (h : Tells command answer result) :
    result = bodyOf command answer := by
  rw [bodyOf]
  cases h with
  | body hsuccess => rw [if_pos (isTrue_iff.2 hsuccess)]
  | reason hfailed htext =>
      rw [if_neg (mt isTrue_iff.1 hfailed), text?_eq_some_iff.2 htext, Option.getD_some]
  | unknown hfailed htext =>
      have hnone : (answer.member "message").text? = none :=
        Option.eq_none_iff_forall_ne_some.2 fun text heq => htext text (text?_eq_some_iff.1 heq)
      rw [if_neg (mt isTrue_iff.1 hfailed), hnone, Option.getD_none]

theorem panics_bodyOf (command : String) (answer : Json) : panics (bodyOf command answer) = false := by
  rw [bodyOf]
  split <;> rfl

end Answers

namespace Awaited

theorem skip (h : Awaited command number messages result rest)
    (hmessage : ¬IsAnswer number message.value) :
    Awaited command number (message :: messages) result rest := by
  cases h with
  | answered hskipped hanswer htells =>
      exact .answered (List.forall_mem_cons.2 ⟨hmessage, hskipped⟩) hanswer htells
  | exited hmessages => exact .exited (List.forall_mem_cons.2 ⟨hmessage, hmessages⟩)

theorem dropWhile (h : Awaited command number messages result rest) :
    match messages.dropWhile (fun message => !decide (IsAnswer number message.value)) with
    | [] => result = .error (.exited command) ∧ rest = []
    | answer :: left => result = bodyOf command answer.value ∧ rest = left := by
  cases h with
  | answered hskipped hanswer htells =>
      rw [List.dropWhile_append_of_pos (by simpa using hskipped),
        List.dropWhile_cons_of_neg (by simpa using hanswer)]
      exact ⟨htells.eq_bodyOf, rfl⟩
  | exited hmessages =>
      rw [List.dropWhile_eq_nil_iff.2 (by simpa using hmessages)]
      exact ⟨rfl, rfl⟩

theorem goesOn (h : Awaited command number messages result rest) : panics result = false := by
  cases h with
  | answered _ _ htells => exact htells.eq_bodyOf ▸ panics_bodyOf command _
  | exited => rfl

theorem unique (h : Awaited command number messages result rest)
    (h' : Awaited command number messages result' rest') : result = result' ∧ rest = rest' := by
  have hfirst := h.dropWhile
  have hfirst' := h'.dropWhile
  split at hfirst
  · next heq =>
      rw [heq] at hfirst'
      exact ⟨hfirst.1.trans hfirst'.1.symm, hfirst.2.trans hfirst'.2.symm⟩
  · next heq =>
      rw [heq] at hfirst'
      exact ⟨hfirst.1.trans hfirst'.1.symm, hfirst.2.trans hfirst'.2.symm⟩

theorem filter {kept : Framed → Bool} (h : Awaited command number messages result rest)
    (hkept : ∀ message, IsAnswer number message.value → kept message = true) :
    Awaited command number (messages.filter kept) result (rest.filter kept) := by
  cases h with
  | answered hskipped hanswer htells =>
      rw [List.filter_append, List.filter_cons_of_pos (hkept _ hanswer)]
      exact .answered (fun message hmem => hskipped message (List.mem_filter.1 hmem).1) hanswer htells
  | exited hmessages =>
      exact .exited fun message hmem => hmessages message (List.mem_filter.1 hmem).1

end Awaited

section Awaiting

theorem length_le_bytes (messages : List Framed) :
    messages.length ≤ (messages.flatMap Framed.bytes).length := by
  induction messages with
  | nil => exact Nat.le_refl 0
  | cons message messages ih =>
      obtain ⟨body, -, heq⟩ := message.gap.exists_bytes_eq
      have hgap : 1 ≤ message.gap.bytes.length := by simp [heq]
      simp only [List.length_cons, List.flatMap_cons, List.length_append, Framed.bytes,
        Frame.Message.head]
      omega

theorem awaited_await (command : String) (number : Nat) {gap : List UInt8}
    (hgap : Leads none gap none) {fuel : Nat} (hfuel : messages.length < fuel) :
    ∃ result rest gap', Leads none gap' none ∧ Awaited command number messages result rest ∧
      await command number fuel (gap ++ messages.flatMap Framed.bytes) =
        (result, gap' ++ rest.flatMap Framed.bytes) := by
  -- a message that is passed over leaves its own blank lines before the next one
  induction messages generalizing gap fuel with
  | nil =>
      obtain ⟨fuel, rfl⟩ := Nat.exists_eq_succ_of_ne_zero (Nat.ne_of_gt hfuel)
      refine ⟨_, [], [], .nil none, .exited (List.forall_mem_nil _), ?_⟩
      rw [await, hgap.read]
      rfl
  | cons message messages ih =>
      obtain ⟨fuel, rfl⟩ := Nat.exists_eq_succ_of_ne_zero (Nat.ne_of_gt (Nat.zero_lt_of_lt hfuel))
      have hread : Frame.read (gap ++ (message :: messages).flatMap Framed.bytes) =
          (.ok (some message.value), message.tail ++ messages.flatMap Framed.bytes) := by
        rw [hgap.read, List.flatMap_cons, Framed.bytes, List.append_assoc, message.read_message]
      rw [await, hread]
      by_cases hanswer : IsAnswer number message.value
      · refine ⟨_, messages, message.tail, message.leads_tail,
          .answered (List.forall_mem_nil _) hanswer (tells_bodyOf command message.value), ?_⟩
        simp only [if_pos (answers_iff.2 hanswer)]
      · obtain ⟨result, rest, gap', hgap', hawaited, heq⟩ :=
          ih message.leads_tail (Nat.lt_of_succ_lt_succ hfuel)
        refine ⟨result, rest, gap', hgap', hawaited.skip hanswer, ?_⟩
        simp only [if_neg (mt answers_iff.1 hanswer), heq]

theorem Hears.send (h : service.Hears messages) (command : String) (arguments : Json) :
    (service.send command arguments).Hears messages :=
  h

theorem Hears.request (h : service.Hears messages) (command : String) (arguments : Json) :
    ∃ rest, Awaited command (service.sequence + 1) messages (service.request command arguments).1 rest ∧
      (service.request command arguments).2.Hears rest := by
  obtain ⟨gap, hgap, hstream⟩ := h
  have hfuel : messages.length < service.stream.length + 1 := by
    rw [hstream, List.length_append]
    exact Nat.lt_succ_of_le (Nat.le_trans (length_le_bytes messages) (Nat.le_add_left ..))
  obtain ⟨result, rest, gap', hgap', hawaited, heq⟩ :=
    awaited_await command (service.sequence + 1) hgap hfuel
  rw [← hstream] at heq
  have hrequest : service.request command arguments =
      (result, { service.send command arguments with stream := gap' ++ rest.flatMap Framed.bytes }) := by
    simp only [Service.request, Service.send, heq]
  rw [hrequest]
  exact ⟨rest, hawaited, gap', hgap', rfl⟩

end Awaiting

section Calls

theorem perform_ask (service : Service) (command : String) (arguments : Json) (calls : List Call)
    (h : panics (service.request command arguments).1 = false) :
    service.perform (.ask command arguments :: calls) =
      ((service.request command arguments).1 ::
          ((service.request command arguments).2.perform calls).1,
        ((service.request command arguments).2.perform calls).2) := by
  simp only [perform, h, Bool.false_eq_true, if_false]

theorem perform_panic (service : Service) (command : String) (arguments : Json) (calls : List Call)
    (h : panics (service.request command arguments).1 = true) :
    service.perform (.ask command arguments :: calls) =
      ([(service.request command arguments).1], (service.request command arguments).2) := by
  simp only [perform, h, if_true]

theorem lines_cons {next : Service} {call : Call} {made : List Call}
    (hsequence : next.sequence = service.sequence + 1)
    (hsent : next.sent = call.line (service.sequence + 1) :: service.sent) :
    ((numbered service.sequence (call :: made)).map fun (number, call) =>
        call.line number).reverse ++ service.sent =
      ((numbered next.sequence made).map fun (number, call) => call.line number).reverse ++
        next.sent := by
  rw [numbered, List.map_cons, List.reverse_cons, List.append_assoc, hsequence, hsent]
  rfl

theorem sent_perform (service : Service) (calls : List Call) : ∃ made, made <+: calls ∧
    (service.perform calls).2.sent =
      ((numbered service.sequence made).map fun (number, call) => call.line number).reverse ++
        service.sent ∧
    ((∀ result ∈ (service.perform calls).1, panics result = false) → made = calls) := by
  induction calls generalizing service with
  | nil => exact ⟨[], List.prefix_refl [], rfl, fun _ => rfl⟩
  | cons call calls ih =>
      cases call with
      | tell command arguments =>
          obtain ⟨made, hmade, hsent, hall⟩ := ih (service.send command arguments)
          refine ⟨_, List.cons_prefix_cons.2 ⟨rfl, hmade⟩, hsent.trans (lines_cons rfl rfl).symm,
            fun h => ?_⟩
          exact congrArg _ (hall h)
      | ask command arguments =>
          cases hpanics : panics (service.request command arguments).1 with
          | false =>
              rw [perform_ask service command arguments calls hpanics]
              obtain ⟨made, hmade, hsent, hall⟩ := ih (service.request command arguments).2
              refine ⟨_, List.cons_prefix_cons.2 ⟨rfl, hmade⟩, hsent.trans (lines_cons rfl rfl).symm,
                fun h => ?_⟩
              exact congrArg _ (hall (List.forall_mem_cons.1 h).2)
          | true =>
              rw [perform_panic service command arguments calls hpanics]
              refine ⟨[.ask command arguments], List.prefix_append [_] calls, rfl, fun h => ?_⟩
              cases hpanics.symm.trans (h _ (List.mem_singleton_self _))

theorem numbered_eq_zip (number : Nat) (calls : List Call) :
    numbered number calls = (List.range' (number + 1) calls.length).zip calls := by
  induction calls generalizing number with
  | nil => rfl
  | cons call calls ih => rw [numbered, ih, List.length_cons, List.range'_succ, List.zip_cons_cons]

theorem pairwise_numbered (number : Nat) (calls : List Call) :
    (number :: (numbered number calls).map Prod.fst).Pairwise (· < ·) := by
  rw [numbered_eq_zip, List.map_fst_zip (by simp), ← List.range'_succ]
  exact List.pairwise_lt_range'

theorem lt_of_mem_numbered {entry : Nat × Call} (h : entry ∈ numbered number calls) :
    entry.1 < number + 1 + calls.length := by
  rw [numbered_eq_zip] at h
  exact (List.mem_range'_1.1 (List.of_mem_zip h).1).2

theorem mem_awaitedNumbers_cons {call : Call} {n : Nat} :
    n ∈ awaitedNumbers number (call :: calls) ↔
      call.isAwaited = true ∧ n = number + 1 ∨ n ∈ awaitedNumbers (number + 1) calls := by
  simp only [awaitedNumbers, numbered, List.filter_cons]
  split <;> simp_all

theorem Hears.perform (h : service.Hears messages) (calls : List Call) : ∃ rest,
    Conversation service.sequence messages calls (service.perform calls).1 rest ∧
      (service.perform calls).2.Hears rest := by
  induction calls generalizing service messages with
  | nil => exact ⟨messages, .done, h⟩
  | cons call calls ih =>
      cases call with
      | tell command arguments =>
          obtain ⟨rest, hconversation, hrest⟩ := ih (h.send command arguments)
          exact ⟨rest, .told hconversation, hrest⟩
      | ask command arguments =>
          obtain ⟨left, hawaited, hleft⟩ := h.request command arguments
          obtain ⟨rest, hconversation, hrest⟩ := ih hleft
          rw [perform_ask service command arguments calls hawaited.goesOn]
          exact ⟨rest, .asked hawaited hconversation, hrest⟩

namespace Conversation

theorem goesOn (h : Conversation number messages calls results rest) :
    ∀ result ∈ results, panics result = false := by
  induction h with
  | done => exact List.forall_mem_nil _
  | told _ ih => exact ih
  | asked hawaited _ ih => exact List.forall_mem_cons.2 ⟨hawaited.goesOn, ih⟩

theorem unique {results' : List (Except ServiceError Json)}
    (h : Conversation number messages calls results rest)
    (h' : Conversation number messages calls results' rest') : results = results' ∧ rest = rest' := by
  induction h generalizing results' with
  | done =>
      cases h'
      exact ⟨rfl, rfl⟩
  | told _ ih =>
      cases h' with
      | told hcalls => exact ih hcalls
  | asked hawaited _ ih =>
      cases h' with
      | asked hawaited' hcalls =>
          obtain ⟨rfl, rfl⟩ := hawaited.unique hawaited'
          obtain ⟨rfl, rfl⟩ := ih hcalls
          exact ⟨rfl, rfl⟩

theorem filter {kept : Framed → Bool} (h : Conversation number messages calls results rest)
    (hkept : ∀ n ∈ awaitedNumbers number calls, ∀ message : Framed, IsAnswer n message.value →
      kept message = true) :
    Conversation number (messages.filter kept) calls results (rest.filter kept) := by
  induction h with
  | done => exact .done
  | told _ ih => exact .told (ih fun n hn => hkept n (mem_awaitedNumbers_cons.2 (.inr hn)))
  | asked hawaited _ ih =>
      have hnumber := hkept _ (mem_awaitedNumbers_cons.2 (.inl ⟨rfl, rfl⟩))
      exact .asked (hawaited.filter hnumber)
        (ih fun n hn => hkept n (mem_awaitedNumbers_cons.2 (.inr hn)))

end Conversation

end Calls

end HtmlIds.Service
