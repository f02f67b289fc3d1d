import HtmlIds.Editor.Reference
import HtmlIds.Proofs.Editor.Cursor
import HtmlIds.Proofs.Index
import HtmlIds.Proofs.Markup.IdDeclarations
import HtmlIds.Proofs.Text.LineTable
import Mathlib.Data.List.Nodup

namespace HtmlIds

def QuotedAt (text word : List Char) (start stop : Nat) : Prop :=
  ∃ before after opening closing, text = before ++ word ++ after ∧
    start = utf8Length before ∧ stop = utf8Length (before ++ word) ∧
    before.getLast? = some opening ∧ isQuote opening = true ∧
    after.head? = some closing ∧ isQuote closing = true

structure SitesPoint (uri : Uri) (text : String) : Prop where
  declared : ∀ group ∈ (Index.build uri text).groups, ∀ site ∈ group.2,
    ∃ d ∈ idDeclarations text, d.value = group.1 ∧
      (LineTable.ofText text).offsetAt site.position = d.span.start ∧
      QuotedAt text.toList group.1.toList d.span.start d.span.stop
  ascending : ((idDeclarations text).map fun d =>
    (LineTable.ofText text).positionAt d.span.start).Pairwise (· < ·)
  distinct : ∀ d ∈ idDeclarations text, ∀ d' ∈ idDeclarations text,
    (LineTable.ofText text).positionAt d.span.start =
      (LineTable.ofText text).positionAt d'.span.start → d = d'
  located : ∀ request position locations,
    definition? (Index.build uri text) request position = some locations →
      ∃ line word, scriptLine? request position = some line ∧
        wordAt? line position.character = some word ∧
        ∀ location ∈ locations, QuotedAt text.toList word.text.toList
          ((LineTable.ofText text).offsetAt location.range.start)
          ((LineTable.ofText text).offsetAt location.range.stop)

theorem quotedAt_of_mem {text : String} {d : IdDeclaration} (h : d ∈ idDeclarations text) :
    QuotedAt text.toList d.value.toList d.span.start d.span.stop := by
  obtain ⟨g, hdeclares⟩ := exists_declares_of_mem h
  obtain ⟨p, name, q, value, htag, hlast⟩ := hdeclares.candidate
  obtain ⟨hvalue, hspan⟩ := hdeclares.value p name q value htag hlast
  obtain ⟨opening, closing, after, heq, hfirst, hopening, hclosing⟩ :=
    hlast.opens.exists_eq_append
  rw [hvalue, hspan, String.toList_ofList]
  refine ⟨_, _, opening, closing, heq, rfl, ?_, hfirst, hopening, rfl, hclosing⟩
  rw [byteOffset_add text.toList (q + 1), hlast.opens.take_eq, utf8Length_append]
  rfl

section

variable {text word : List Char} {start stop : Nat}

theorem QuotedAt.stop_lt (h : QuotedAt text word start stop)
    (hsize : utf8Length text < UInt32.size) : stop < UInt32.size := by
  obtain ⟨before, after, -, -, heq, -, rfl, -⟩ := h
  rw [heq, utf8Length_append] at hsize
  omega

theorem QuotedAt.offsetAt_start (h : QuotedAt text word start stop)
    (hsize : utf8Length text < UInt32.size) :
    (LineTable.ofList text).offsetAt ((LineTable.ofList text).positionAt start) = start := by
  have hstop := h.stop_lt hsize
  obtain ⟨before, after, opening, -, rfl, rfl, rfl, hopening, hquote, -⟩ := h
  rw [utf8Length_append] at hstop
  rw [List.append_assoc, LineTable.positionAt_ofList]
  refine LineTable.offsetAt_toPosition (inWords_of_lt (by omega)) fun hreturn => ?_
  obtain rfl := Option.some.inj (hopening.symm.trans hreturn)
  exact absurd hquote (by decide)

theorem QuotedAt.offsetAt_stop (h : QuotedAt text word start stop)
    (hsize : utf8Length text < UInt32.size) (hne : word ≠ [])
    (hword : ∀ c ∈ word, isWordChar c = true) :
    (LineTable.ofList text).offsetAt
      (Range.onLine ((LineTable.ofList text).positionAt start) (utf16Length word).toUInt32).stop =
        stop := by
  have hlt := h.stop_lt hsize
  obtain ⟨before, after, -, -, rfl, rfl, rfl, -⟩ := h
  have hnewline : '\n' ∉ word := fun hmem => absurd (hword _ hmem) (by decide)
  have hstop : Range.stop (.onLine ((LineTable.ofList (before ++ word ++ after)).positionAt
      (utf8Length before)) (utf16Length word).toUInt32) =
        toPosition (placeAfter (before ++ word)) := by
    rw [List.append_assoc, LineTable.positionAt_ofList, onLine_placeAfter _ hnewline]
  rw [hstop]
  refine LineTable.offsetAt_toPosition (inWords_of_lt hlt) fun hlast => ?_
  have hreturn : word.getLast? = some '\r' := by
    rwa [List.getLast?_append_of_ne_nil _ hne] at hlast
  exact absurd (hword _ (List.mem_of_getLast? hreturn)) (by decide)

end

variable {text : String}

theorem exists_declaration_of_mem {uri : Uri} {id : String} {site : Site}
    (h : site ∈ (declarationsOf text id).map (Index.siteOf uri (.ofText text))) :
    ∃ d ∈ idDeclarations text, d.value = id ∧
      site.position = (LineTable.ofText text).positionAt d.span.start := by
  obtain ⟨d, hd, rfl⟩ := List.mem_map.1 h
  obtain ⟨hmem, hvalue⟩ := mem_declarationsOf.1 hd
  exact ⟨d, hmem, hvalue, rfl⟩

theorem definition?_eq_some {index : Index} {request : String} {position : Position}
    {locations : List Location} (h : definition? index request position = some locations) :
    ∃ line word sites, scriptLine? request position = some line ∧
      wordAt? line position.character = some word ∧ index.sites? word.text = some sites ∧
      locations = sites.map fun site => ⟨site.uri, Diagnostic.idRange site.position word.text⟩ := by
  unfold definition? referenceAt? at h
  cases hline : scriptLine? request position with
  | none => simp [hline] at h
  | some line =>
      cases hword : wordAt? line position.character with
      | none => simp [hline, hword] at h
      | some word =>
          cases hsites : index.sites? word.text with
          | none => simp [hline, hword, hsites] at h
          | some sites =>
              simp only [hline, hword, hsites, Option.bind_some, Option.map_some,
                Option.some.injEq] at h
              exact ⟨line, word, sites, rfl, hword, hsites, h.symm⟩

theorem positionAt_ascending (hsize : utf8Length text.toList < UInt32.size) :
    ((idDeclarations text).map fun d =>
      (LineTable.ofText text).positionAt d.span.start).Pairwise (· < ·) := by
  refine List.pairwise_map.2 ((idDeclarations_ascending text).imp_of_mem fun hd hd' hlt => ?_)
  obtain ⟨before, after, -, -, heq, hstart, -⟩ := quotedAt_of_mem hd
  obtain ⟨before', after', -, -, heq', hstart', -⟩ := quotedAt_of_mem hd'
  rw [List.append_assoc] at heq heq'
  rw [hstart, hstart'] at hlt ⊢
  exact LineTable.positionAt_lt hsize heq heq' hlt

theorem positionAt_nodup (hsize : utf8Length text.toList < UInt32.size) :
    ((idDeclarations text).map fun d => (LineTable.ofText text).positionAt d.span.start).Nodup := by
  refine (positionAt_ascending hsize).imp fun hlt hsame => ?_
  rw [hsame] at hlt
  exact Position.not_lt_self _ hlt

theorem sites_point (uri : Uri) (hsize : utf8Length text.toList < UInt32.size) :
    SitesPoint uri text where
  declared := by
    intro group hgroup site hsite
    rw [Index.groups_build] at hgroup
    obtain ⟨id, -, rfl⟩ := List.mem_map.1 hgroup
    obtain ⟨d, hd, hvalue, hposition⟩ := exists_declaration_of_mem hsite
    have hquoted := quotedAt_of_mem hd
    refine ⟨d, hd, hvalue, ?_, hvalue ▸ hquoted⟩
    rw [hposition]
    exact hquoted.offsetAt_start hsize
  ascending := positionAt_ascending hsize
  distinct := fun _ hd _ hd' heq =>
    List.inj_on_of_nodup_map (positionAt_nodup hsize) hd hd' heq
  located := by
    intro request position locations hlocations
    obtain ⟨line, word, sites, hline, hword, hsites, rfl⟩ := definition?_eq_some hlocations
    refine ⟨line, word, hline, hword, fun location hlocation => ?_⟩
    obtain ⟨site, hsite, rfl⟩ := List.mem_map.1 hlocation
    rw [Index.sites?_build] at hsites
    split at hsites
    · obtain rfl := Option.some.inj hsites
      obtain ⟨d, hd, hvalue, hposition⟩ := exists_declaration_of_mem hsite
      obtain ⟨hne, hchars⟩ := isWordChar_of_wordAt? hword
      have hquoted := hvalue ▸ quotedAt_of_mem hd
      have hstart : (LineTable.ofText text).offsetAt
          ((LineTable.ofText text).positionAt d.span.start) = d.span.start :=
        hquoted.offsetAt_start hsize
      have hstop : (LineTable.ofText text).offsetAt (Diagnostic.idRange
          ((LineTable.ofText text).positionAt d.span.start) word.text).stop = d.span.stop :=
        hquoted.offsetAt_stop hsize hne hchars
      rw [← hposition] at hstart hstop
      rw [hstop]
      exact hstart.symm ▸ hquoted
    · cases hsites

theorem sites_point_crlf :
    let text := "<p\r\n  id=\"😀\">\r\n<b title='😀' id='box'>"
    utf8Length text.toList < UInt32.size ∧ SitesPoint "file:///a.html" text := by
  intro text
  have hsize : utf8Length text.toList < UInt32.size := by decide
  exact ⟨hsize, sites_point _ hsize⟩

end HtmlIds
