import HtmlIds.Editor.Fixture
import HtmlIds.Proofs.Text.Occurrence
import HtmlIds.Proofs.Text.Wrapping

namespace HtmlIds

/-- What becomes of a text that gets a marker behind `before`. With the units of a column added up
in a word, the position is taken back to the offset of the marker unless a return that ends a line
stands before it, or words do not tell it from an earlier place. -/
structure InsertionUndone (before after : List Char) : Prop where
  stripped : ofFixture? (String.ofList (before ++ cursorMarker ++ after)) =
    some (String.ofList (before ++ after),
      (LineTable.ofList (before ++ after)).positionAt (utf8Length before))
  returned : (LineTable.ofList (before ++ after)).offsetAtInWord
      ((LineTable.ofList (before ++ after)).positionAt (utf8Length before)) = utf8Length before ↔
    ¬EndsAtReturn before after ∧ ReachedFirst before
  reached : utf8Length before < UInt32.size → ReachedFirst before
  inWord : utf8Length (before ++ after) < UInt32.size → ∀ p,
    (LineTable.ofList (before ++ after)).offsetAtInWord p =
      (LineTable.ofList (before ++ after)).offsetAt p

theorem ofFixture?_insert {before : List Char} (h : ¬cursorMarker <:+: before) (after : List Char) :
    ofFixture? (String.ofList (before ++ cursorMarker ++ after)) =
      some (String.ofList (before ++ after),
        (LineTable.ofList (before ++ after)).positionAt (utf8Length before)) := by
  have hfind := findText_insert (by decide : Unbordered cursorMarker) h after
  have hdrop : (before ++ (cursorMarker ++ after)).drop (before.length + cursorMarker.length) =
      after := by
    rw [List.drop_length_add_append, List.drop_left]
  simp only [ofFixture?, String.toList_ofList, List.append_assoc, hfind, Option.map_some,
    List.take_left, hdrop]

theorem ofFixture?_eq_none_iff {fixture : String} :
    ofFixture? fixture = none ↔ ¬cursorMarker <:+: fixture.toList := by
  rw [ofFixture?, Option.map_eq_none_iff, findText_eq_none_iff]

end HtmlIds
