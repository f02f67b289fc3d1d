namespace HtmlIds

def pieces (separator : Char) : List Char → List (List Char)
  | [] => [[]]
  | c :: rest =>
    if c = separator then [] :: pieces separator rest
    else
      match pieces separator rest with
      | [] => [[c]]
      | piece :: others => (c :: piece) :: others

def joinPieces (separator : Char) : List (List Char) → List Char
  | [] => []
  | piece :: rest =>
    match rest with
    | [] => piece
    | _ :: _ => piece ++ separator :: joinPieces separator rest

def findText (pattern : List Char) : List Char → Option Nat
  | [] => if pattern = [] then some 0 else none
  | c :: rest =>
    if pattern.isPrefixOf (c :: rest) then some 0 else (findText pattern rest).map (· + 1)

end HtmlIds
