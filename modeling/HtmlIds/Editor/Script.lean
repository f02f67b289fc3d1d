import HtmlIds.Editor.Cursor
import HtmlIds.Markup.ScriptRegion

namespace HtmlIds

def scriptLine? (text : String) (position : Position) : Option (List Char) :=
  let table := LineTable.ofText text
  if inScriptRegion text (table.offsetAt position) then table.lineText? position.line else none

end HtmlIds
