import HtmlIds.Proofs.Editor.Completions
import HtmlIds.Proofs.Markup.IdDeclarations
import Mathlib.Data.List.TakeWhile

namespace HtmlIds

def isTagChar (c : Char) : Bool :=
  isNameChar c || c == '-'

/-- A start tag as it is written, from `<` and its whole name to the first `>`. Every tag that
starts before it has been closed. -/
structure WrittenTag (text : List Char) (p : Nat) (name : List Char) (g : Nat) : Prop where
  opens : text[p]? = some '<'
  name_eq : name = (text.drop (p + 1)).takeWhile isTagChar
  begins : ∃ first rest, name = first :: rest ∧ isNameChar first = true
  stop : FirstFrom text '>' (p + 1 + name.length) g
  outside : ∀ p' name', TagStart text p' name' → p' < p →
    ∃ k, p' + 1 + name'.length ≤ k ∧ k < p ∧ text[k]? = some '>'

structure LastIdBetween (text : List Char) (p g q : Nat) (value : List Char) : Prop where
  opens : OpensId text q value
  after : p < q
  before : q < g
  last : ∀ q' value', OpensId text q' value' → q' < g → q' ≤ q

def tagStem (name : List Char) : List Char :=
  name.takeWhile isNameChar

structure TypedByStem (uri : Uri) (source : String) (name : List Char) (q : Nat) (value : List Char)
    (d : IdDeclaration) : Prop where
  declared : d ∈ idDeclarations source
  value_eq : d.value = String.ofList value
  span_eq : d.span =
    ⟨byteOffset source.toList (q + 1), byteOffset source.toList (q + 1 + value.length)⟩
  tag_eq : d.tag = String.ofList (asciiLower (tagStem name))
  site : ∃ sites, (Index.build uri source).sites? d.value = some sites ∧
    Index.siteOf uri (.ofText source) d ∈ sites
  known : ∀ row ∈ tagsOfElementTypes, d.tag ∈ row.2 →
    (Index.siteOf uri (.ofText source) d).elementType = row.1
  fallback : (Index.siteOf uri (.ofText source) d).elementType = fallbackElementType ↔
    ∀ row ∈ tagsOfElementTypes, d.tag ∉ row.2
  offered : (idDeclarations source).find? (·.value = d.value) = some d →
    ∀ (database : Database) (types : List String) (text : String) (position : Position)
      (line : List Char), scriptLine? text position = some line →
      identifierBeforeDot? (textBeforeCursor line position.character) = some d.value →
        ∃ items, (completions (.build uri source) (MemberCache.lookups { database } types) text
          position).1 = some items ∧
        OffersMembers (database.members (Index.siteOf uri (.ofText source) d).elementType) items

theorem elementTypeOfTag_of_mem : ∀ row ∈ tagsOfElementTypes, ∀ tag ∈ row.2,
    elementTypeOfTag tag = row.1 := by
  decide +kernel

theorem fallback_not_mem_rows : ∀ row ∈ tagsOfElementTypes, row.1 ≠ fallbackElementType := by
  decide +kernel

theorem elementTypeOfTag_eq_fallback_iff {tag : String} :
    elementTypeOfTag tag = fallbackElementType ↔ ∀ row ∈ tagsOfElementTypes, tag ∉ row.2 := by
  constructor
  · intro h row hrow hmem
    exact fallback_not_mem_rows row hrow ((elementTypeOfTag_of_mem row hrow tag hmem).symm.trans h)
  · intro h
    have hnone : tagsOfElementTypes.find? (fun row => row.2.contains tag) = none := by
      simpa using h
    rw [elementTypeOfTag, hnone]

variable {text : List Char} {p g q : Nat} {name value : List Char}

theorem WrittenTag.stem_eq (h : WrittenTag text p name g) :
    tagStem name = (text.drop (p + 1)).takeWhile isNameChar := by
  have hboth (c : Char) : (isNameChar c && isTagChar c) = isNameChar c := by
    rw [isTagChar]
    cases isNameChar c <;> rfl
  rw [tagStem, h.name_eq, List.takeWhile_takeWhile]
  simp [hboth]

theorem WrittenTag.tag (h : WrittenTag text p name g) : Tag text p (tagStem name) g where
  opens := h.opens
  name_eq := h.stem_eq
  name_ne_nil := by
    obtain ⟨first, rest, rfl, hfirst⟩ := h.begins
    rw [tagStem, List.takeWhile_cons_of_pos hfirst]
    exact List.cons_ne_nil _ _
  stop := by
    have hlength : (tagStem name).length ≤ name.length :=
      (List.takeWhile_prefix isNameChar).length_le
    refine ⟨?_, h.stop.found, fun j hle hlt hfound => ?_⟩
    · have hstop := h.stop.le
      omega
    · rcases Nat.lt_or_ge j (p + 1 + name.length) with hj | hj
      · obtain ⟨n, rfl⟩ := Nat.exists_eq_add_of_le (show p + 1 ≤ j by omega)
        have hn : n < ((text.drop (p + 1)).takeWhile isTagChar).length := by
          rw [← h.name_eq]
          omega
        obtain ⟨c, hc, htag⟩ := exists_getElem?_of_lt_run hn
        rw [List.getElem?_drop, hfound] at hc
        obtain rfl := Option.some.inj hc
        exact absurd htag (by decide)
      · exact h.stop.first j hj hlt hfound

theorem WrittenTag.first (h : WrittenTag text p name g) {p' : Nat} {name' : List Char}
    (h' : Tag text p' name' g) : p ≤ p' := by
  refine Nat.le_of_not_lt fun hlt => ?_
  obtain ⟨k, hle, hk, hfound⟩ := h.outside p' name' h'.toTagStart hlt
  exact h'.stop.first k hle (Nat.lt_trans hk h.tag.lt_stop) hfound

theorem LastIdBetween.lastIdCandidate (h : LastIdBetween text p g q value)
    (htag : Tag text p name g) : LastIdCandidate text p name g q value where
  toIdCandidate := h.opens.candidate htag h.after h.before
  last := fun q' value' h' => h.last q' value' h'.opens h'.before_stop

theorem OpensId.sign_before (h : OpensId text q value) : text[q - 1]? = some '=' := by
  obtain ⟨-, -, -, -, -, -, -, -, hsign, -⟩ := h.getElem?
  exact hsign

theorem typed_by_stem (uri : Uri) {source : String} (h : WrittenTag source.toList p name g)
    (hid : LastIdBetween source.toList p g q value) :
    ∃ d, TypedByStem uri source name q value d := by
  have hlast := hid.lastIdCandidate h.tag
  obtain ⟨d, hmem, hd⟩ := exists_mem_of_declared ⟨p, _, q, value, h.tag, hlast.toIdCandidate⟩
  obtain ⟨hvalue, hspan⟩ := hd.value p _ q value h.tag hlast
  obtain ⟨p', name', htag', hfirst, htag⟩ := hd.tag
  -- the first tag with this stop names the declaration, and no tag before this one has its stop
  obtain rfl := Nat.le_antisymm (hfirst p _ h.tag) (h.first htag')
  rw [htag'.name_eq, ← h.stem_eq] at htag
  exact ⟨d, {
    declared := hmem
    value_eq := hvalue
    span_eq := hspan
    tag_eq := htag
    site := by
      have hdeclared : d.value ∈ declaredIds source := List.mem_map_of_mem hmem
      rw [Index.sites?_build, if_pos hdeclared]
      exact ⟨_, rfl, List.mem_map_of_mem (mem_declarationsOf.2 ⟨hmem, rfl⟩)⟩
    known := fun row hrow hrow' => elementTypeOfTag_of_mem row hrow d.tag hrow'
    fallback := elementTypeOfTag_eq_fallback_iff
    offered := by
      intro hfind database types text position line hline hbase
      have hserves := (MemberCache.serves_fresh database).lookups types
      have hoffers := offers_joinItems hserves uri source (textBeforeCursor line position.character)
      simpa only [completions, hline, Index.siteOf] using hoffers.members d.value d hbase hfind }⟩

theorem typed_by_stem_capitals :
    let source := "<p><TABLE-View data-x='1' ID='v'>"
    WrittenTag source.toList 3 "TABLE-View".toList 32 ∧ LastIdBetween source.toList 3 32 29 ['v'] ∧
      ∃ d, TypedByStem "file:///a.html" source "TABLE-View".toList 29 ['v'] d := by
  intro source
  have hwritten : WrittenTag source.toList 3 "TABLE-View".toList 32 := by
    have hdrop : source.toList.drop 14 = " data-x='1' ID='v'".toList ++ ['>'] := by decide
    refine ⟨by decide, by decide, ⟨'T', _, rfl, by decide⟩, firstFrom_of_drop hdrop (by decide), ?_⟩
    intro p' name' h hlt
    obtain rfl | rfl | rfl : p' = 0 ∨ p' = 1 ∨ p' = 2 := by omega
    · obtain rfl : name' = ['p'] := h.name_eq.trans (by decide)
      exact ⟨2, by decide, by decide, by decide⟩
    · exact absurd h.opens (by decide)
    · exact absurd h.opens (by decide)
  have hid : LastIdBetween source.toList 3 32 29 ['v'] := by
    refine ⟨?_, by decide, by decide, fun q value h hlt => ?_⟩
    · exact opensId_add_four_iff.2 ⟨' ', by decide, by decide, by decide⟩
    · refine Nat.le_of_not_lt fun hgt => ?_
      obtain rfl | rfl : q = 30 ∨ q = 31 := by omega
      · exact absurd h.sign_before (by decide)
      · exact absurd h.sign_before (by decide)
  exact ⟨hwritten, hid, typed_by_stem "file:///a.html" hwritten hid⟩

theorem table_view_typed_as_table :
    let source := "<table-view id=\"t\"></table-view>\n<script>\nt.\n</script>"
    WrittenTag source.toList 0 "table-view".toList 18 ∧ LastIdBetween source.toList 0 18 15 ['t'] ∧
      (∀ row ∈ tagsOfElementTypes, String.ofList (asciiLower "table-view".toList) ∉ row.2) ∧
      ((Index.build "file:///a.html" source).firstSite? "t").map (·.elementType) =
        some "HTMLTableElement" ∧ "HTMLTableElement" ≠ fallbackElementType := by
  intro source
  have hdrop : source.toList.drop 11 =
      " id=\"t\"".toList ++ '>' :: "</table-view>\n<script>\nt.\n</script>".toList := by decide
  refine ⟨⟨by decide, by decide, ⟨'t', _, rfl, by decide⟩, firstFrom_of_drop hdrop (by decide), ?_⟩,
    ⟨?_, by decide, by decide, ?_⟩, by decide +kernel, ?_, by decide⟩
  · intro p' name' _ hlt
    exact absurd hlt (Nat.not_lt_zero p')
  · exact opensId_add_four_iff.2 ⟨' ', by decide, by decide, by decide⟩
  · intro q value h hlt
    refine Nat.le_of_not_lt fun hgt => ?_
    obtain rfl | rfl : q = 16 ∨ q = 17 := by omega
    · exact absurd h.sign_before (by decide)
    · exact absurd h.sign_before (by decide)
  · rw [Index.firstSite?_build, Option.map_map]
    decide +kernel

end HtmlIds
