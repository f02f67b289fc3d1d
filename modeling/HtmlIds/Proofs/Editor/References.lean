import HtmlIds.Editor.Reference
import HtmlIds.Proofs.Editor.Completions
import HtmlIds.Proofs.Editor.WordAtCursor
import HtmlIds.Proofs.Json.Number
import HtmlIds.Proofs.Markup.IdDeclarations

namespace HtmlIds

structure WordInScript (text : String) (position : Position) (line : List Char) (word : Word) :
    Prop where
  inScript : inScriptRegion text ((LineTable.ofText text).offsetAt position) = true
  lineText : (LineTable.ofText text).lineText? position.line = some line
  touched : wordAt? line position.character = some word

def elementText (id tag elementType : String) : String :=
  "```typescript\nconst " ++ id ++ ": " ++ elementType ++ "\n```\n\nHTML element: `<" ++ tag ++
    " id=\"" ++ id ++ "\">`"

def duplicateWarning (count : Nat) : String :=
  "\n\n⚠️ **Warning:** This ID is duplicated " ++ toString count ++ " times"

structure ShowsSites (uri : Uri) (source : String) (number : UInt32) (line : List Char) (word : Word)
    (hover : Hover) (locations : List Location) : Prop where
  sites : (Index.build uri source).sites? word.text =
    some ((declarationsOf source word.text).map (Index.siteOf uri (.ofText source)))
  ordered : (declarationsOf source word.text).Pairwise fun d d' => d.span.start < d'.span.start
  located : List.Forall₂ (fun d location => location.uri = uri ∧ location.range =
      .onLine ((LineTable.ofText source).positionAt d.span.start)
        (utf16Length word.text.toList).toUInt32)
    (declarationsOf source word.text) locations
  nonempty : locations ≠ []
  contents : ∃ first, (declarationsOf source word.text).head? = some first ∧ hover.contents =
    elementText word.text first.tag (elementTypeOfTag first.tag) ++
      if 1 < locations.length then duplicateWarning locations.length else ""
  warning : ∀ count, (duplicateWarning count).toList <:+ hover.contents.toList ↔
    1 < locations.length ∧ count = locations.length
  range : ∃ front back, line = front ++ word.text.toList ++ back ∧
    IsWord line front word.text.toList word ∧
    hover.range = some ⟨⟨number, word.start⟩, ⟨number, word.stop⟩⟩

structure ReferencesAgree (uri : Uri) (source text : String) (position : Position) : Prop where
  together : (hover? (.build uri source) text position).isSome ↔
    (definition? (.build uri source) text position).isSome
  places : (definition? (.build uri source) text position).isSome ↔
    ∃ line word, WordInScript text position line word ∧
      (Index.build uri source).contains word.text = true
  answers : ∀ hover locations, hover? (.build uri source) text position = some hover →
    definition? (.build uri source) text position = some locations →
      ∃ line word, WordInScript text position line word ∧
        ShowsSites uri source position.line line word hover locations

theorem referenceAt?_eq_some_iff {index : Index} {text : String} {position : Position} {word : Word}
    {sites : List Site} : referenceAt? index text position = some (word, sites) ↔
      (∃ line, WordInScript text position line word) ∧ index.sites? word.text = some sites := by
  have hword : ((scriptLine? text position).bind fun line => wordAt? line position.character) =
      some word ↔ ∃ line, WordInScript text position line word := by
    simp only [Option.bind_eq_some_iff, scriptLine?_eq_some_iff]
    exact exists_congr fun line => ⟨fun h => ⟨h.1.1, h.1.2, h.2⟩,
      fun h => ⟨⟨h.inScript, h.lineText⟩, h.touched⟩⟩
  rw [← hword, referenceAt?]
  cases (scriptLine? text position).bind fun line => wordAt? line position.character with
  | none => simp
  | some word' =>
      simp only [Option.map_eq_some_iff, Prod.mk.injEq, Option.some.injEq]
      constructor
      · rintro ⟨_, hsites, rfl, rfl⟩
        exact ⟨rfl, hsites⟩
      · rintro ⟨rfl, hsites⟩
        exact ⟨sites, hsites, rfl, rfl⟩

variable {uri : Uri} {source text : String} {position : Position} {word : Word} {line : List Char}

theorem not_mem_lineText? {number : UInt32}
    (h : (LineTable.ofText text).lineText? number = some line) : '\n' ∉ line := by
  obtain ⟨leading, whole, others, hlines, -, rfl⟩ := LineTable.exists_of_lineText? h
  exact fun hmem => (exists_of_splitLines hlines).1 ((stripReturn_isPrefix whole).mem hmem)

theorem hoverText_eq (id : String) (site : Site) (count : Nat) : hoverText id site count =
    elementText id site.tag site.elementType ++ if 1 < count then duplicateWarning count else "" :=
  rfl

theorem getLast?_append_toList (front : String) {back : String} (h : back.toList ≠ []) :
    (front ++ back).toList.getLast? = back.toList.getLast? := by
  rw [String.toList_append, List.getLast?_append_of_ne_nil _ h]

theorem getLast?_elementText (id tag elementType : String) :
    (elementText id tag elementType).toList.getLast? ≠ some 's' := by
  have hback : "\">`".toList ≠ [] := by decide
  exact (getLast?_append_toList _ hback).trans_ne (by decide)

theorem toList_append_count (front back : String) (count : Nat) :
    (front ++ toString count ++ back).toList =
      front.toList ++ Nat.toDigits 10 count ++ back.toList := by
  have hdigits : (toString count).toList = Nat.toDigits 10 count := Nat.toList_repr
  rw [String.toList_append, String.toList_append, hdigits]

theorem exists_warning_parts : ∃ lead : List Char, lead.getLast? = some ' ' ∧ ∀ count,
    (duplicateWarning count).toList = lead ++ Nat.toDigits 10 count ++ " times".toList :=
  ⟨_, by decide, toList_append_count "\n\n⚠️ **Warning:** This ID is duplicated " " times"⟩

theorem count_of_append_warning {front front' : List Char} {count count' : Nat}
    (h : front ++ (duplicateWarning count).toList = front' ++ (duplicateWarning count').toList) :
    count = count' := by
  obtain ⟨lead, hblank, hparts⟩ := exists_warning_parts
  have hne : lead ≠ [] := List.ne_nil_of_mem (List.mem_of_getLast? hblank)
  have hdigits (front : List Char) (count : Nat) :
      (front ++ lead ++ Nat.toDigits 10 count).rtakeWhile Char.isDigit = Nat.toDigits 10 count := by
    refine rtakeWhile_append_of_getLast ?_ fun _ => JsonNumber.isDigit_of_mem_toDigits
    rw [List.getLast?_append_of_ne_nil _ hne, hblank]
    simp
  have hcut : front ++ lead ++ Nat.toDigits 10 count = front' ++ lead ++ Nat.toDigits 10 count' := by
    simp only [hparts, ← List.append_assoc] at h
    exact List.append_cancel_right h
  have hsame : Nat.toDigits 10 count = Nat.toDigits 10 count' := by
    rw [← hdigits front, hcut, hdigits]
  rw [← JsonNumber.digitsValue_toDigits count, hsame, JsonNumber.digitsValue_toDigits]

theorem warning_suffix_iff {description : List Char} (h : description.getLast? ≠ some 's')
    (count shown : Nat) : (duplicateWarning count).toList <:+
      description ++ (if 1 < shown then duplicateWarning shown else "").toList ↔
        1 < shown ∧ count = shown := by
  split
  · next hshown =>
      constructor
      · rintro ⟨front, hfront⟩
        exact ⟨hshown, count_of_append_warning hfront⟩
      · rintro ⟨-, rfl⟩
        exact List.suffix_append _ _
  · next hshown =>
      refine iff_of_false ?_ fun hboth => hshown hboth.1
      rintro ⟨front, hfront⟩
      obtain ⟨lead, -, hparts⟩ := exists_warning_parts
      have hne : " times".toList ≠ [] := by decide
      have hlast := congrArg List.getLast? hfront
      rw [hparts, String.toList_empty, List.append_nil, ← List.append_assoc,
        List.getLast?_append_of_ne_nil _ hne] at hlast
      exact h hlast.symm

theorem referenceAt?_build (uri : Uri) {sites : List Site} :
    referenceAt? (.build uri source) text position = some (word, sites) ↔
      (∃ line, WordInScript text position line word) ∧ word.text ∈ declaredIds source ∧
        (declarationsOf source word.text).map (Index.siteOf uri (.ofText source)) = sites := by
  rw [referenceAt?_eq_some_iff, Index.sites?_build]
  simp

theorem contains_build : (Index.build uri source).contains word.text = true ↔
    word.text ∈ declaredIds source := by
  rw [Index.contains, Index.sites?_build]
  by_cases hmem : word.text ∈ declaredIds source <;> simp [hmem]

theorem definition?_build (h : WordInScript text position line word)
    (hmem : word.text ∈ declaredIds source) : definition? (.build uri source) text position =
      some ((declarationsOf source word.text).map fun d =>
        ⟨uri, Diagnostic.idRange ((LineTable.ofText source).positionAt d.span.start) word.text⟩) := by
  have href := (referenceAt?_build uri).2 ⟨⟨line, h⟩, hmem, rfl⟩
  simp only [definition?, href, List.map_map]
  rfl

theorem hover?_build (uri : Uri) (h : WordInScript text position line word)
    (hmem : word.text ∈ declaredIds source) :
    ∃ first, (declarationsOf source word.text).head? = some first ∧
      hover? (.build uri source) text position = some
        ⟨hoverText word.text (Index.siteOf uri (.ofText source) first)
          (declarationsOf source word.text).length,
        some ⟨⟨position.line, word.start⟩, ⟨position.line, word.stop⟩⟩⟩ := by
  have href := (referenceAt?_build uri).2 ⟨⟨line, h⟩, hmem, rfl⟩
  have hne : declarationsOf source word.text ≠ [] := fun hnil => declarationsOf_eq_nil_iff.1 hnil hmem
  obtain ⟨first, others, hfirst⟩ := List.exists_cons_of_ne_nil hne
  refine ⟨first, by rw [hfirst, List.head?_cons], ?_⟩
  simp only [hover?, href, List.head?_map, List.length_map, hfirst, List.head?_cons, Option.map_some]

theorem referenceAt?_isSome_iff : (referenceAt? (.build uri source) text position).isSome ↔
    ∃ line word, WordInScript text position line word ∧
      (Index.build uri source).contains word.text = true := by
  simp only [contains_build, Option.isSome_iff_exists]
  constructor
  · rintro ⟨⟨word, sites⟩, href⟩
    obtain ⟨⟨line, hword⟩, hmem, -⟩ := (referenceAt?_build uri).1 href
    exact ⟨line, word, hword, hmem⟩
  · rintro ⟨line, word, hword, hmem⟩
    exact ⟨_, (referenceAt?_build uri).2 ⟨⟨line, hword⟩, hmem, rfl⟩⟩

theorem definition?_isSome_eq (index : Index) : (definition? index text position).isSome =
    (referenceAt? index text position).isSome := by
  unfold definition?
  cases referenceAt? index text position <;> rfl

theorem hover?_isSome_eq : (hover? (.build uri source) text position).isSome =
    (referenceAt? (.build uri source) text position).isSome := by
  cases href : referenceAt? (.build uri source) text position with
  | none => simp [hover?, href]
  | some found =>
      obtain ⟨⟨line, hword⟩, hmem, -⟩ := (referenceAt?_build uri).1 href
      obtain ⟨first, -, hhover⟩ := hover?_build uri hword hmem
      rw [hhover]
      rfl

theorem WordInScript.showsSites {hover : Hover} {locations : List Location}
    (h : WordInScript text position line word) (hmem : word.text ∈ declaredIds source)
    (hhover : hover? (.build uri source) text position = some hover)
    (hdefinition : definition? (.build uri source) text position = some locations) :
    ShowsSites uri source position.line line word hover locations := by
  rw [definition?_build h hmem] at hdefinition
  obtain rfl := Option.some.inj hdefinition
  obtain ⟨first, hfirst, hbuild⟩ := hover?_build uri h hmem
  rw [hbuild] at hhover
  obtain rfl := Option.some.inj hhover
  exact {
    sites := by rw [Index.sites?_build, if_pos hmem]
    ordered := (idDeclarations_ascending source).filter _
    located := by
      rw [List.forall₂_map_right_iff, List.forall₂_same]
      exact fun _ _ => ⟨rfl, rfl⟩
    nonempty := by
      rw [Ne, List.map_eq_nil_iff, declarationsOf_eq_nil_iff]
      exact fun hnot => hnot hmem
    contents := by
      rw [List.length_map]
      exact ⟨first, hfirst, rfl⟩
    warning := by
      intro count
      rw [List.length_map, hoverText_eq, String.toList_append]
      exact warning_suffix_iff (getLast?_elementText _ _ _) count _
    range := by
      obtain ⟨front, token, htoken, -, hword⟩ :=
        (wordAt?_eq_some_iff (not_mem_lineText? h.lineText)).1 h.touched
      obtain ⟨back, hline⟩ := htoken.exists_after
      have htext : word.text.toList = token := by rw [hword.text, String.toList_ofList]
      rw [htext]
      exact ⟨front, back, hline, hword, rfl⟩ }

end HtmlIds
