import HtmlIds.Check.Basic
import HtmlIds.Proofs.Check.Coherence
import HtmlIds.Proofs.Editor.DuplicateRanges
import HtmlIds.Proofs.Editor.References
import HtmlIds.Proofs.Markup.ScriptBlocks
import HtmlIds.Proofs.Text.WordSums

namespace HtmlIds

def displayFromOne (p : Position) : String :=
  toString (p.line.toNat + 1) ++ ":" ++ toString (p.character.toNat + 1)

def encodeFromOne (p : Position) : Json :=
  Json.ofMembers [("line", .nat (p.line.toNat + 1)), ("column", .nat (p.character.toNat + 1))]

structure CountsFromOne (p : Position) : Prop where
  line : p.line.toNat + 1 < UInt32.size
  column : p.character.toNat + 1 < UInt32.size
  display : p.display = displayFromOne p
  encode : Report.encodePosition p = encodeFromOne p

structure RangeFits (range : Range) : Prop where
  oneLine : range.stop.line = range.start.line
  nonempty : range.start < range.stop
  start : CountsFromOne range.start
  stop : CountsFromOne range.stop

structure IdRangeFits (text : String) (d : IdDeclaration) (range : Range) : Prop
    extends RangeFits range where
  place : range.start = (LineTable.ofText text).positionAt d.span.start
  sum : range.start.character.toNat + utf16Length d.value.toList < UInt32.size
  width : range.stop.character.toNat = range.start.character.toNat + utf16Length d.value.toList

structure WordRangeFits (text : String) (position : Position) (range : Range) : Prop
    extends RangeFits range where
  line : range.start.line = position.line
  word : ∃ line before token, (LineTable.ofText text).lineText? position.line = some line ∧
    IsToken line before token ∧ range.start.character.toNat = utf16Length before ∧
    range.stop.character.toNat = utf16Length (before ++ token)

structure ReportedFromOne (diagnostic : Diagnostic) : Prop where
  lines : ∀ colors path, ∃ rest, Report.diagnosticLines colors path diagnostic =
    "\n" ++ path ++ ":" ++ displayFromOne diagnostic.range.start ++ ": " ++ rest
  location : (Report.encodeDiagnostic diagnostic).member "location" =
    Json.ofMembers [("start", encodeFromOne diagnostic.range.start),
      ("end", encodeFromOne diagnostic.range.stop)]

structure CoordinatesFit (text : String) : Prop where
  sums : ∀ part, part <:+: text.toList → SumsFit part
  diagnostics : ∀ uri rule key shown,
    ((Index.build uri text).diagnostics rule).find? key = some shown → ∀ diagnostic ∈ shown,
      (∃ d ∈ idDeclarations text, IdRangeFits text d diagnostic.range) ∧ ReportedFromOne diagnostic
  checked : ∀ uri rule, ∀ diagnostic ∈ Check.diagnostics uri text rule,
    (∃ d ∈ idDeclarations text, IdRangeFits text d diagnostic.range) ∧ ReportedFromOne diagnostic
  sites : ∀ uri id sites, (Index.build uri text).sites? id = some sites → ∀ site ∈ sites,
    ∃ d ∈ idDeclarations text, IdRangeFits text d (Diagnostic.idRange site.position id)
  definitions : ∀ uri request position locations,
    definition? (Index.build uri text) request position = some locations → ∀ location ∈ locations,
      ∃ d ∈ idDeclarations text, IdRangeFits text d location.range
  hovers : ∀ index position hover range, hover? index text position = some hover →
    hover.range = some range → WordRangeFits text position range

theorem toNat_add_one {n : UInt32} (h : n.toNat + 1 < UInt32.size) : (n + 1).toNat = n.toNat + 1 := by
  rw [UInt32.toNat_add]
  exact Nat.mod_eq_of_lt h

theorem countsFromOne_of_lt {p : Position} (hline : p.line.toNat + 1 < UInt32.size)
    (hcolumn : p.character.toNat + 1 < UInt32.size) : CountsFromOne p where
  line := hline
  column := hcolumn
  display := by rw [Position.display, displayFromOne, toNat_add_one hline, toNat_add_one hcolumn]
  encode := by
    rw [Report.encodePosition, encodeFromOne, toNat_add_one hline, toNat_add_one hcolumn]

theorem rangeFits_of_lt {range : Range} (honeLine : range.stop.line = range.start.line)
    (hlt : range.start.character.toNat < range.stop.character.toNat)
    (hline : range.start.line.toNat + 1 < UInt32.size)
    (hstop : range.stop.character.toNat + 1 < UInt32.size) : RangeFits range where
  oneLine := honeLine
  nonempty := .inr ⟨honeLine.symm, UInt32.lt_iff_toNat_lt.2 hlt⟩
  start := countsFromOne_of_lt hline (by omega)
  stop := countsFromOne_of_lt (honeLine ▸ hline) hstop

theorem RangeFits.reportedFromOne {diagnostic : Diagnostic} (h : RangeFits diagnostic.range) :
    ReportedFromOne diagnostic where
  lines := by
    intro colors path
    simp only [Report.diagnosticLines, h.start.display, String.append_assoc]
    exact ⟨_, rfl⟩
  location := by
    rw [← h.start.encode, ← h.stop.encode]
    simp [Report.encodeDiagnostic, Json.member_ofMembers, OrderedMap.valuesOf]

variable {text : String} {d : IdDeclaration}

theorem idRangeFits_idRange (hsize : utf8Length text.toList < UInt32.size)
    (h : d ∈ idDeclarations text) : IdRangeFits text d
      (Diagnostic.idRange ((LineTable.ofText text).positionAt d.span.start) d.value) := by
  have hmarks := marksValue_idRange hsize h
  obtain ⟨before, hlength, hstart, -⟩ := exists_places h
  obtain ⟨hline, hcolumn⟩ := placeAfter_le before
  have hpos := utf16Length_pos (value_ne_nil h)
  have hwidth := utf16Length_le_utf8Length d.value.toList
  rw [utf8Length_append] at hlength
  have hbefore : utf8Length before < UInt32.size := by omega
  obtain ⟨hlineNat, hcolumnNat⟩ := toNat_placeAfter (inWords_of_lt hbefore)
  rw [← hstart] at hlineNat hcolumnNat
  have hsum := hmarks.width
  rw [hmarks.start, hcolumnNat] at hsum
  refine ⟨rangeFits_of_lt hmarks.line ?_ ?_ ?_, hmarks.start, ?_, hmarks.width⟩
  · rw [hmarks.width]
    omega
  · rw [hmarks.start, hlineNat]
    omega
  · omega
  · rw [hmarks.start, hcolumnNat]
    omega

theorem ne_nil_of_inScriptRegion {before token rest : List Char} {offset : Nat}
    (heq : text.toList = before ++ token ++ rest) (htoken : ∀ c ∈ token, isWordChar c = true)
    (hle : utf8Length before ≤ offset) (h : inScriptRegion text offset = true) : rest ≠ [] := by
  rintro rfl
  obtain ⟨p, e, s, hfound, -, hlt⟩ := inScriptRegion_iff.1 h
  obtain ⟨-, -, hcloser⟩ := hfound.spec
  obtain ⟨tail, htail⟩ := hcloser.1.2.exists_drop
  rw [heq, List.append_nil] at hlt htail
  have hbefore : byteOffset (before ++ token) before.length = utf8Length before := by
    rw [byteOffset, List.take_left]
  have hs : before.length ≤ s := by
    refine Nat.le_of_not_lt fun hgt => ?_
    have hmono := byteOffset_mono (before ++ token) (Nat.le_of_lt hgt)
    omega
  rw [List.drop_append, List.drop_eq_nil_of_le hs, List.nil_append] at htail
  have hmem : '<' ∈ token := List.mem_of_mem_drop (htail ▸ List.mem_cons_self)
  exact absurd (htoken '<' hmem) (by decide)

variable {position : Position} {line : List Char} {word : Word}

theorem WordInScript.exists_token (hsize : utf8Length text.toList < UInt32.size)
    (h : WordInScript text position line word) : ∃ front token,
      IsToken line front token ∧ IsWord line front token word ∧
      position.line.toNat + 1 < UInt32.size ∧ utf16Length (front ++ token) + 1 < UInt32.size := by
  obtain ⟨front, token, htoken, htouches, hword⟩ :=
    (wordAt?_eq_some_iff (not_mem_lineText? h.lineText)).1 h.touched
  obtain ⟨leading, source, others, hlines, hnumber, rfl⟩ := LineTable.exists_of_lineText? h.lineText
  obtain ⟨tail, hline, -, -, hchars, -⟩ := isToken_iff.1 htoken
  have hpart : front ++ token <+: source :=
    List.IsPrefix.trans ⟨tail, hline.symm⟩ (stripReturn_isPrefix source)
  -- the place behind the word is one that reading the text leads to, before its end
  obtain ⟨before, -, hbytes, hplace⟩ := exists_before hlines hpart
  obtain ⟨hlineLe, hcolumnLe⟩ := placeAfter_le before
  rw [hplace] at hlineLe hcolumnLe
  obtain ⟨-, ahead, after, htext, hahead, -⟩ := exists_of_splitLines hlines
  obtain ⟨back, hsource⟩ := hpart
  have hcut := cut_add_overshoot hlines hnumber
  have heq : text.toList = ahead ++ front ++ token ++ (back ++ after) := by
    rw [htext, ← hsource]
    simp
  have hcursor : utf8Length (ahead ++ front) ≤ (LineTable.ofText text).offsetAt position := by
    have hle := htouches.1
    rw [utf8Length_append, hahead, LineTable.ofText, ← hcut]
    omega
  have hpos := utf8Length_pos (ne_nil_of_inScriptRegion heq hchars hcursor h.inScript)
  rw [htext, ← hsource, utf8Length_append, utf8Length_append, utf8Length_append] at hsize
  rw [utf8Length_append] at hpos
  exact ⟨front, token, htoken, hword, by omega, by omega⟩

theorem exists_word_of_hover? {index : Index} {hover : Hover}
    (h : hover? index text position = some hover) : ∃ line word,
      WordInScript text position line word ∧
        hover.range = some ⟨⟨position.line, word.start⟩, ⟨position.line, word.stop⟩⟩ := by
  unfold hover? at h
  split at h
  · cases h
  · next word sites href =>
      obtain ⟨⟨line, hword⟩, -⟩ := referenceAt?_eq_some_iff.1 href
      obtain ⟨site, -, rfl⟩ := Option.map_eq_some_iff.1 h
      exact ⟨line, word, hword, rfl⟩

theorem WordInScript.wordRangeFits (hsize : utf8Length text.toList < UInt32.size)
    (h : WordInScript text position line word) : WordRangeFits text position
      ⟨⟨position.line, word.start⟩, ⟨position.line, word.stop⟩⟩ := by
  obtain ⟨front, token, htoken, hword, hline, hstop⟩ := h.exists_token hsize
  have hinfix := utf16Length_le_of_isInfix (lineText?_isInfix h.lineText)
  obtain ⟨hstartNat, hstopNat⟩ := hword.exact (Nat.lt_of_le_of_lt hinfix hsize)
  have hpos := utf16Length_pos htoken.ne_nil
  refine ⟨rangeFits_of_lt rfl ?_ hline ?_, rfl, line, front, token, h.lineText, htoken, hstartNat,
    hstopNat⟩
  · rw [hstartNat, hstopNat, utf16Length_append]
    omega
  · rw [hstopNat]
    exact hstop

theorem diagnostic_fits (hsize : utf8Length text.toList < UInt32.size) {uri key : Uri}
    {rule : RuleSeverity} {shown : List Diagnostic}
    (h : ((Index.build uri text).diagnostics rule).find? key = some shown) {diagnostic : Diagnostic}
    (hmem : diagnostic ∈ shown) :
    (∃ d ∈ idDeclarations text, IdRangeFits text d diagnostic.range) ∧
      ReportedFromOne diagnostic := by
  cases hrule : rule.severity? with
  | none =>
      rw [Index.diagnostics, hrule] at h
      cases h
  | some severity =>
      rw [Index.find?_diagnostics_build hrule] at h
      obtain ⟨-, hreports⟩ := Option.ite_none_right_eq_some.1 h
      obtain rfl := Option.some.inj hreports
      obtain ⟨d, hd, rfl⟩ := List.mem_map.1 hmem
      have hdeclared := List.mem_of_mem_filter (Index.mem_reportedDeclarations.1 hd)
      have hfits := idRangeFits_idRange hsize hdeclared
      exact ⟨⟨d, hdeclared, hfits⟩, RangeFits.reportedFromOne hfits.toRangeFits⟩

theorem site_fits (hsize : utf8Length text.toList < UInt32.size) {uri : Uri} {id : String}
    {sites : List Site} (h : (Index.build uri text).sites? id = some sites) {site : Site}
    (hmem : site ∈ sites) :
    ∃ d ∈ idDeclarations text, IdRangeFits text d (Diagnostic.idRange site.position id) := by
  rw [Index.sites?_build] at h
  obtain ⟨-, hdeclared⟩ := Option.ite_none_right_eq_some.1 h
  obtain rfl := Option.some.inj hdeclared
  obtain ⟨d, hd, rfl, hposition⟩ := exists_declaration_of_mem hmem
  exact ⟨d, hd, hposition ▸ idRangeFits_idRange hsize hd⟩

theorem coordinates_fit (hsize : utf8Length text.toList < UInt32.size) : CoordinatesFit text where
  sums := fun _ hpart => sums_fit (Nat.lt_of_le_of_lt (utf8Length_le_of_isInfix hpart) hsize)
  diagnostics := fun _ _ _ _ h _ hmem => diagnostic_fits hsize h hmem
  checked := by
    intro uri rule diagnostic hmem
    cases hshown : ((Index.build uri text).diagnostics rule).find? uri with
    | none =>
        have hchecked : Check.diagnostics uri text rule = [] := congrArg (·.getD []) hshown
        exact absurd (hchecked ▸ hmem) List.not_mem_nil
    | some shown =>
        have hchecked : Check.diagnostics uri text rule = shown := congrArg (·.getD []) hshown
        exact diagnostic_fits hsize hshown (hchecked ▸ hmem)
  sites := fun _ _ _ h _ hmem => site_fits hsize h hmem
  definitions := by
    intro uri request position locations h location hmem
    obtain ⟨line, word, sites, -, -, hsites, rfl⟩ := definition?_eq_some h
    obtain ⟨site, hsite, rfl⟩ := List.mem_map.1 hmem
    exact site_fits hsize hsites hsite
  hovers := by
    intro index position hover range h hrange
    obtain ⟨line, word, hword, hshown⟩ := exists_word_of_hover? h
    obtain rfl := Option.some.inj (hrange.symm.trans hshown)
    exact hword.wordRangeFits hsize

theorem coordinates_fit_wide :
    let text := "<i title='😀' id='a'></i>\n<b id=\"a\"></b>\r\n<script>'é😀'+a</script>"
    let index := Index.build "file:///a.html" text
    let shown := Check.diagnostics "file:///a.html" text .error
    utf8Length text.toList < UInt32.size ∧
      shown.map (·.range) = [⟨⟨0, 18⟩, ⟨0, 19⟩⟩, ⟨⟨1, 7⟩, ⟨1, 8⟩⟩] ∧
      (definition? index text ⟨2, 14⟩).map (·.map (·.range)) = some (shown.map (·.range)) ∧
      (hover? index text ⟨2, 14⟩).bind (·.range) = some ⟨⟨2, 14⟩, ⟨2, 15⟩⟩ ∧
      CoordinatesFit text := by
  intro text index shown
  have hsize : utf8Length text.toList < UInt32.size := by decide
  exact ⟨hsize, by decide +kernel, by decide +kernel, by decide +kernel, coordinates_fit hsize⟩

end HtmlIds
