import HtmlIds.Text.LineTable

namespace HtmlIds

def cursorMarker : List Char := "$0".toList

def ofFixture? (fixture : String) : Option (String × Position) :=
  let marked := fixture.toList
  (findText cursorMarker marked).map fun size =>
    let before := marked.take size
    let text := before ++ marked.drop (size + cursorMarker.length)
    (String.ofList text, (LineTable.ofList text).positionAt (utf8Length before))

end HtmlIds
