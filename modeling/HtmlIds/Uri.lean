import HtmlIds.Text.Pieces

namespace HtmlIds

abbrev Uri := String

namespace Uri

def ofPath (path : String) : Uri :=
  if (findText "://".toList path.toList).isSome then path
  else if path.toList.head? = some '/' then "file://" ++ path
  else "file:///" ++ String.ofList (path.toList.map fun c => if c = '\\' then '/' else c)

def isUnreserved (c : Char) : Bool :=
  c.isAlphanum || c == '-' || c == '.' || c == '_' || c == '~'

def isSubDelimiter (c : Char) : Bool :=
  c ∈ ['!', '$', '&', '\'', '(', ')', '*', '+', ',', ';', '=']

def hexValue? (c : Char) : Option Nat :=
  if c.isDigit then some (c.toNat - 48)
  else if 'a' ≤ c && c ≤ 'f' then some (c.toNat - 87)
  else if 'A' ≤ c && c ≤ 'F' then some (c.toNat - 55)
  else none

def isHex (c : Char) : Bool :=
  (hexValue? c).isSome

def isEncoded (extra : List Char) : List Char → Bool
  | [] => true
  | '%' :: high :: low :: rest => isHex high && isHex low && isEncoded extra rest
  | c :: rest => (isUnreserved c || isSubDelimiter c || extra.contains c) && isEncoded extra rest

def cutAt (stops : List Char) (text : List Char) : List Char × List Char :=
  (text.takeWhile (!stops.contains ·), text.dropWhile (!stops.contains ·))

def isScheme : List Char → Bool
  | [] => false
  | c :: rest =>
    c.isAlpha && rest.all fun c => c.isAlphanum || c == '+' || c == '-' || c == '.'

def isByte (digits : List Char) : Bool :=
  digits ≠ [] && digits.length ≤ 3 && digits.all Char.isDigit &&
    (digits.length = 1 || digits.head? != some '0') &&
    digits.foldl (fun n c => 10 * n + (c.toNat - 48)) 0 < 256

def isDotted (text : List Char) : Bool :=
  let parts := pieces '.' text
  parts.length = 4 && parts.all isByte

def groupCount? : List (List Char) → Option Nat
  | [] => some 0
  | group :: rest =>
    if rest = [] && isDotted group then some 2
    else if group ≠ [] && group.length ≤ 4 && group.all isHex then (groupCount? rest).map (· + 1)
    else none

def isAddress6 (text : List Char) : Bool :=
  let groups (text : List Char) := if text = [] then [] else pieces ':' text
  match findText "::".toList text with
  | none => groupCount? (groups text) == some 8
  | some size =>
    let before := groups (text.take size)
    match before.any (·.contains '.'), groupCount? before,
      groupCount? (groups (text.drop (size + 2))) with
    | false, some m, some n => m + n ≤ 7
    | _, _, _ => false

def isFutureAddress : List Char → Bool
  | v :: rest =>
    let (version, address) := cutAt ['.'] rest
    v.toLower = 'v' && version ≠ [] && version.all isHex && 1 < address.length &&
      address.all fun c => isUnreserved c || isSubDelimiter c || c == ':'
  | [] => false

def isPort : List Char → Bool
  | [] => true
  | ':' :: digits => digits.all Char.isDigit
  | _ => false

def isHostAndPort : List Char → Bool
  | '[' :: rest =>
    let (address, after) := cutAt [']'] rest
    after ≠ [] && (isAddress6 address || isFutureAddress address) && isPort (after.drop 1)
  | text =>
    let (host, port) := cutAt [':'] text
    isEncoded [] host && isPort port

def authorityParts (authority : List Char) : List Char × List Char :=
  match cutAt ['@'] authority with
  | (host, []) => ([], host)
  | (user, _ :: host) => (user, host)

def isHierarchy : List Char → Bool
  | '/' :: '/' :: rest =>
    let (authority, path) := cutAt ['/'] rest
    let (user, host) := authorityParts authority
    isEncoded [':'] user && isHostAndPort host && isEncoded [':', '@', '/'] path
  | path => isEncoded [':', '@', '/'] path

def schemeParts (text : List Char) : Option (List Char) × List Char :=
  match cutAt [':', '/'] text with
  | (scheme, ':' :: rest) => (some scheme, rest)
  | _ => (none, text)

def beforeQuery (text : List Char) : List Char :=
  (cutAt ['?', '#'] text).1

def isReference (uri : Uri) : Bool :=
  let (main, fragment) := cutAt ['#'] uri.toList
  let (main, query) := cutAt ['?'] main
  let inQuery := [':', '@', '/', '?']
  let (scheme, rest) := schemeParts main
  (scheme.map isScheme).getD true && isHierarchy rest && isEncoded inQuery (query.drop 1) &&
    isEncoded inQuery (fragment.drop 1)

def encodedByte? : List Char → Option UInt8
  | '%' :: high :: low :: _ =>
    match hexValue? high, hexValue? low with
    | some high, some low => some (16 * high + low).toUInt8
    | _, _ => none
  | _ => none

def decodeBytes : List Char → Nat → List UInt8
  | [], _ => []
  | _ :: rest, skip + 1 => decodeBytes rest skip
  | c :: rest, 0 =>
    match encodedByte? (c :: rest) with
    | some byte => byte :: decodeBytes rest 2
    | none => String.utf8EncodeChar c ++ decodeBytes rest 0

def decode (text : List Char) : List Char :=
  match String.fromUTF8? ⟨(decodeBytes text 0).toArray⟩ with
  | some decoded => decoded.toList
  | none => [Char.ofNat 0xFFFD]

def dots (segment : List Char) : Option Nat :=
  let plain := decode segment
  if plain = ['.'] then some 1 else if plain = ['.', '.'] then some 2 else none

def followDots : List (List Char) → List (List Char) → List (List Char)
  | [], before => before.reverse
  | segment :: rest, before =>
    match dots segment with
    | none => followDots rest (segment :: before)
    | some count =>
      let before := if count = 2 then before.drop 1 else before
      followDots rest (if rest = [] then [] :: before else before)

def toLocal (collapse : Bool) (path : List Char) : String :=
  let segments := followDots (pieces '/' (path.drop 1)) []
  let kept := if collapse then segments.dropWhile (· == []) else segments
  String.ofList ((if kept = [] then [[]] else kept).flatMap fun segment => '/' :: decode segment)

def lowerText (text : List Char) : List Char :=
  text.map Char.toLower

def isLocalHost (host : List Char) : Bool :=
  lowerText (decode host) == "localhost".toList

def hasGoodPort (port : List Char) : Bool :=
  (port.drop 1).foldl (fun n c => 10 * n + (c.toNat - 48)) 0 < 65536

def webSchemes : List String :=
  ["http", "https", "ws", "wss", "ftp"]

/-- The path of the file that a reference leads to on this machine. A `file` reference may leave out
its host; every other one needs a path that starts at a root, and may name no other host. -/
def localPath? (uri : Uri) : Option String :=
  match schemeParts (beforeQuery uri.toList) with
  | (none, _) => none
  | (some scheme, rest) =>
    let scheme := String.ofList (lowerText scheme)
    if scheme = "file" then
      match rest with
      | '/' :: '/' :: rest =>
        let (host, path) := cutAt ['/'] rest
        if host = [] || isLocalHost host then some (toLocal true path) else none
      | '/' :: _ => some (toLocal true rest)
      | _ => some (toLocal true ('/' :: rest))
    else if webSchemes.contains scheme then
      let (authority, path) := cutAt ['/'] (rest.dropWhile (· == '/'))
      let (host, port) := cutAt [':'] (authorityParts authority).2
      if isLocalHost host && hasGoodPort port then some (toLocal false path) else none
    else
      match rest with
      | '/' :: '/' :: rest =>
        let (authority, path) := cutAt ['/'] rest
        let (host, port) := cutAt [':'] (authorityParts authority).2
        if path ≠ [] && (authority = [] || host = "localhost".toList) && hasGoodPort port then
          some (toLocal false path)
        else none
      | '/' :: _ => some (toLocal false rest)
      | _ => none

end Uri

end HtmlIds
