import HtmlIds.Generator.Service
import HtmlIds.Proofs.Json.Compact
import HtmlIds.Proofs.Text.Pieces

namespace HtmlIds.Service

structure Request where
  number : UInt64
  command : String
  arguments : Json
  isExact : arguments.IsExact
  settled : arguments.settled = arguments

namespace Request

variable (request : Request)

def text : List Char :=
  (encodeRequest request.number.toNat request.command request.arguments).toList

def members : List (String × Json) :=
  [("arguments", request.arguments), ("command", .string request.command),
    ("seq", .nat request.number.toNat), ("type", .string "request")]

def value : Json :=
  .object request.members

def line : List Char :=
  request.value.write

def Fits : Prop :=
  request.arguments.nesting < Json.nestingLimit

theorem ascending_members : request.members.Pairwise fun a b => a.1 < b.1 := by
  have hkeys : ["arguments", "command", "seq", "type"].Pairwise (· < ·) := by decide
  exact List.pairwise_map.1 hkeys

theorem text_eq : request.text = request.line ++ ['\n'] := by
  -- a request is made of its members in another order
  have hperm : List.Perm [("seq", .nat request.number.toNat), ("type", .string "request"),
      ("command", .string request.command), ("arguments", request.arguments)] request.members :=
    (List.reverse_perm _).symm.trans (.cons _ (.cons _ (.swap _ _ [])))
  rw [text, encodeRequest, Json.ofMembers_of_perm hperm request.ascending_members, Json.compact,
    String.toList_append, String.toList_ofList]
  rfl

theorem nesting_value : request.value.nesting = request.arguments.nesting + 1 := by
  simp [value, members, Json.nesting, Json.membersNesting, Json.nat, Json.int]

theorem isExact_value : request.value.IsExact := by
  have hnumber : (JsonNumber.integer request.number.toNat).IsWord := by
    have hlt := request.number.toNat_lt
    exact ⟨by omega, by omega⟩
  exact ⟨request.isExact, trivial, hnumber, trivial, trivial⟩

theorem settled_value : request.value.settled = request.value := by
  have hmembers : Json.settledMembers request.members = request.members := by
    simp [members, Json.settledMembers, Json.settled, request.settled, Json.nat, Json.int]
  rw [value, Json.settled, hmembers]
  exact Json.ofMembers_of_ascending request.ascending_members

theorem newline_not_mem_line : '\n' ∉ request.line :=
  (Json.noControl_write request.value request.isExact_value).not_mem (by decide)

theorem parse_line_eq_ok_iff {after : List Char} (hafter : Reading.Blank after) {result : Json} :
    Json.parse (request.line ++ after) = .ok result ↔ result = request.value ∧ request.Fits := by
  have hread : Json.parse ([] ++ request.line ++ after) = .ok result ↔
      result = request.value ∧ request.value.nesting ≤ Json.nestingLimit :=
    Json.parse_write_eq_ok_iff request.isExact_value request.settled_value .nil hafter
  rw [List.nil_append, nesting_value] at hread
  exact hread

theorem parse_text_eq_ok_iff {result : Json} :
    Json.parse request.text = .ok result ↔ result = request.value ∧ request.Fits := by
  rw [text_eq]
  exact request.parse_line_eq_ok_iff fun c hc => by
    obtain rfl := List.mem_singleton.1 hc
    rfl

end Request

structure AreReadBack (requests : List Request) : Prop where
  line : ∀ request ∈ requests, ∃ line, request.text = line ++ ['\n'] ∧ '\n' ∉ line
  value : ∀ request ∈ requests, ∀ result, Json.parse request.text = .ok result ↔
    result = request.value ∧ request.Fits
  split : ∃ lines, pieces '\n' (requests.flatMap Request.text) = lines ++ [[]] ∧
    lines.map (· ++ ['\n']) = requests.map Request.text ∧
    ((∀ request ∈ requests, request.Fits) →
      lines.map Json.parse = requests.map fun request => .ok request.value)

theorem requests_read_back (requests : List Request) : AreReadBack requests where
  line := fun request _ => ⟨request.line, request.text_eq, request.newline_not_mem_line⟩
  value := fun request _ _ => request.parse_text_eq_ok_iff
  split := by
    have htexts : (requests.map Request.line).map (· ++ ['\n']) = requests.map Request.text := by
      simp [Request.text_eq]
    refine ⟨requests.map Request.line, ?_, htexts, fun hfits => ?_⟩
    · have hlines : ∀ line ∈ requests.map Request.line, '\n' ∉ line :=
        List.forall_mem_map.2 fun request _ => request.newline_not_mem_line
      rw [List.flatMap_def, ← htexts, ← List.flatMap_def]
      exact pieces_flatMap_concat hlines
    · rw [List.map_map]
      refine List.map_congr_left fun request hmem => ?_
      have hread := (request.parse_line_eq_ok_iff .nil).2 ⟨rfl, hfits request hmem⟩
      rwa [List.append_nil] at hread

theorem requests_read_back_breaks :
    let arguments := Json.object [("\r\n", .array [.string "\"\\\n\x00", .int (-1)])]
    let texts := encodeRequest 18446744073709551615 "open\n" arguments ++ encodeRequest 1 "exit" .null
    ∃ lines, pieces '\n' texts.toList = lines ++ [[]] ∧ lines.map Json.parse =
      [.ok (.object [("arguments", arguments), ("command", .string "open\n"),
         ("seq", .int 18446744073709551615), ("type", .string "request")]),
       .ok (.object [("arguments", .null), ("command", .string "exit"), ("seq", .int 1),
         ("type", .string "request")])] := by
  intro arguments texts
  have hexact : arguments.IsExact := by
    simp [arguments, Json.IsExact, Json.HaveExact, Json.AreExact, Json.int, JsonNumber.IsWord]
  let first : Request := ⟨18446744073709551615, "open\n", arguments, hexact, rfl⟩
  let last : Request := ⟨1, "exit", .null, trivial, rfl⟩
  have hfirst : arguments.nesting < Json.nestingLimit := by decide
  have hlast : Json.null.nesting < Json.nestingLimit := by decide
  have hfits : ∀ request ∈ [first, last], request.Fits :=
    List.forall_mem_cons.2 ⟨hfirst, List.forall_mem_singleton.2 hlast⟩
  obtain ⟨lines, hpieces, -, hvalues⟩ := (requests_read_back [first, last]).split
  have htexts : texts.toList = [first, last].flatMap Request.text := by
    rw [List.flatMap_cons, List.flatMap_cons, List.flatMap_nil, List.append_nil]
    exact String.toList_append
  exact ⟨lines, htexts ▸ hpieces, hvalues hfits⟩

end HtmlIds.Service
