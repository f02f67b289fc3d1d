import HtmlIds.Server.Basic

namespace HtmlIds

namespace Server

def RequestId.encode : RequestId → Json
  | .number n => .int n
  | .text name => .string name

def RequestId.ofJson? : Json → Option RequestId
  | .string name => some (.text name)
  | value => (Params.signed value).map .number

def Message.ofJson? (value : Json) : Option Message :=
  match RequestId.ofJson? (value.member "id"), (value.member "method").text? with
  | some id, some method => some (.request id method (value.member "params"))
  | some id, none => some (.response id)
  | none, some method => some (.notification method (value.member "params"))
  | none, none => none

def wireVersion : String := "2.0"

def Sent.encode (sent : Sent) (words : String := "") : Json :=
  Json.ofMembers (("jsonrpc", .string wireVersion) :: match sent with
    | .result id value => [("id", id.encode), ("result", value)]
    | .failure id problem =>
      [("id", id.encode),
       ("error", Json.ofMembers
         [("code", .int problem.code), ("message", .string (problem.message words))])]
    | .notification name params => [("method", .string name), ("params", params)])

def frame (text : String) : String :=
  "Content-Length: " ++ toString text.utf8ByteSize ++ "\r\n\r\n" ++ text

end Server

end HtmlIds
