import HtmlIds.Proofs.Editor.DuplicateIds
import HtmlIds.Proofs.Editor.SitePositions
import HtmlIds.Proofs.Text.Counting

namespace HtmlIds

variable {text : String} {d : IdDeclaration}

structure MarksValue (text : String) (d : IdDeclaration) (range : Range) : Prop where
  start : range.start = (LineTable.ofText text).positionAt d.span.start
  line : range.stop.line = range.start.line
  width : range.stop.character.toNat = range.start.character.toNat + utf16Length d.value.toList
  exact_iff : range = ⟨(LineTable.ofText text).positionAt d.span.start,
    (LineTable.ofText text).positionAt d.span.stop⟩ ↔ '\n' ∉ d.value.toList

structure ValuesMarked (uri : Uri) (text : String) (severity : Severity)
    (shown : OrderedMap (List Diagnostic)) : Prop where
  only : ∀ other, shown.contains other = true → other = uri
  marked : ∃ declarations : List IdDeclaration,
    declarations.Perm (repeatedDeclarations text) ∧ declarations.Pairwise (ReportedBefore text) ∧
    List.Forall₂ (fun d diagnostic =>
      ReportsDuplicate text severity d diagnostic ∧ MarksValue text d diagnostic.range)
      declarations ((shown.find? uri).getD [])

theorem exists_places (h : d ∈ idDeclarations text) : ∃ before,
    utf8Length (before ++ d.value.toList) < utf8Length text.toList ∧
      (LineTable.ofText text).positionAt d.span.start = toPosition (placeAfter before) ∧
      (LineTable.ofText text).positionAt d.span.stop =
        toPosition (placeAfter (before ++ d.value.toList)) := by
  obtain ⟨before, after, -, closing, heq, hstart, hstop, -, -, hclosing, -⟩ := quotedAt_of_mem h
  refine ⟨before, ?_, ?_, ?_⟩
  · obtain ⟨rest, rfl⟩ := List.head?_eq_some_iff.1 hclosing
    have hpos := closing.utf8Size_pos
    rw [heq, utf8Length_append (before ++ _), utf8Length_cons]
    omega
  · rw [LineTable.ofText, heq, hstart, List.append_assoc, LineTable.positionAt_ofList]
  · rw [LineTable.ofText, heq, hstop, LineTable.positionAt_ofList]

theorem marksValue_idRange (hsize : utf8Length text.toList < UInt32.size)
    (h : d ∈ idDeclarations text) : MarksValue text d
      (Diagnostic.idRange ((LineTable.ofText text).positionAt d.span.start) d.value) := by
  obtain ⟨before, hlength, hstart, hstop⟩ := exists_places h
  have hlt := Nat.lt_trans hlength hsize
  rw [utf8Length_append] at hlength
  refine ⟨rfl, rfl, ?_, ?_, fun hnewline => ?_⟩
  · have hcolumn := (placeAfter_le before).2
    have hwidth := utf16Length_le_utf8Length d.value.toList
    rw [hstart]
    change ((placeAfter before).2.toUInt32 + (utf16Length d.value.toList).toUInt32).toNat =
      (placeAfter before).2.toUInt32.toNat + _
    rw [← UInt32.ofNat_add, toNat_toUInt32 (by omega), toNat_toUInt32 (by omega)]
  · -- a line feed in the value leads to a later line, but the range stays on the first one
    intro heq hnewline
    have hline := congrArg (·.stop.line.toNat) heq
    change ((LineTable.ofText text).positionAt d.span.start).line.toNat =
      ((LineTable.ofText text).positionAt d.span.stop).line.toNat at hline
    rw [hstart, hstop, toNat_line_placeAfter (by omega), toNat_line_placeAfter hlt,
      List.count_append] at hline
    have hcount := List.count_pos_iff.2 hnewline
    omega
  · rw [hstart, hstop]
    exact onLine_placeAfter before hnewline

theorem values_marked (uri : Uri) (hsize : utf8Length text.toList < UInt32.size)
    {rule : RuleSeverity} {severity : Severity} (hrule : rule.severity? = some severity) :
    ValuesMarked uri text severity ((Index.build uri text).diagnostics rule) where
  only := (Index.duplicatesShown_diagnostics hrule uri text).only
  marked := by
    refine ⟨Index.reportedDeclarations text, Index.reportedDeclarations_perm text,
      Index.reportedDeclarations_ordered text, ?_⟩
    rw [Index.getD_find?_diagnostics_build hrule, Index.reports, List.forall₂_map_right_iff,
      List.forall₂_same]
    intro d hd
    have hmem : d ∈ idDeclarations text :=
      List.mem_of_mem_filter (Index.mem_reportedDeclarations.1 hd)
    exact ⟨⟨rfl, rfl, rfl⟩, marksValue_idRange hsize hmem⟩

theorem values_marked_wide :
    let source := "<p id=\"é😀\r\"></p>\n<p id='é😀\r'></p>"
    let shown := (Index.build "file:///a.html" source).diagnostics .error
    utf8Length source.toList < UInt32.size ∧ RuleSeverity.error.severity? = some .error ∧
      ((shown.find? "file:///a.html").getD []).map (·.range) =
        [⟨⟨0, 7⟩, ⟨0, 11⟩⟩, ⟨⟨1, 7⟩, ⟨1, 11⟩⟩] ∧
      ValuesMarked "file:///a.html" source .error shown := by
  intro source shown
  have hsize : utf8Length source.toList < UInt32.size := by decide
  exact ⟨hsize, rfl, by decide +kernel, values_marked "file:///a.html" hsize rfl⟩

theorem line_feed_shortens_range :
    let source := "<a id=\"x\ny\"></a>\n<b id=\"x\ny\"></b>"
    let shown := (Index.build "file:///a.html" source).diagnostics .error
    utf8Length source.toList < UInt32.size ∧
      ((shown.find? "file:///a.html").getD []).map (·.range) =
        [⟨⟨0, 7⟩, ⟨0, 10⟩⟩, ⟨⟨2, 7⟩, ⟨2, 10⟩⟩] ∧
      (idDeclarations source).map (fun d => Range.mk
        ((LineTable.ofText source).positionAt d.span.start)
        ((LineTable.ofText source).positionAt d.span.stop)) =
          [⟨⟨0, 7⟩, ⟨1, 1⟩⟩, ⟨⟨2, 7⟩, ⟨3, 1⟩⟩] := by
  intro source shown
  exact ⟨by decide, by decide +kernel, by decide +kernel⟩

end HtmlIds
