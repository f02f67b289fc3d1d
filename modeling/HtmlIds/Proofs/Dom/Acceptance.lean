import HtmlIds.Dom.Artifact
import HtmlIds.Proofs.Json.Decoder

namespace HtmlIds.Artifact

open Reading OrderedMap

def SpellsObject (members : List (String × Reading)) (text : List Char) : Prop :=
  PaddedSpelled (.object (named members) none) text

inductive IsMember : Reading → Member → Prop
  | property (name : String) :
      IsMember (.array [.string name, .number (.integer 0)] none) ⟨name, .property⟩
  | method (name : String) :
      IsMember (.array [.string name, .number (.integer 1)] none) ⟨name, .method⟩

def AreMembers (value : Reading) (members : List Member) : Prop :=
  ∃ items, value = .array items none ∧ List.Forall₂ IsMember items members

def IsEntry (type : String × Reading) (entry : String × List Member) : Prop :=
  type.1 = entry.1 ∧ AreMembers type.2 entry.2

def AreTypes (value : Reading) (database : Database) : Prop :=
  ∃ types entries, value = .object (named types) none ∧
    List.Forall₂ IsEntry types entries ∧
    ∀ type, database.find? type = (valuesOf type entries).getLast?

def IsArtifact (text : List Char) (database : Database) : Prop :=
  ∃ members types, SpellsObject members text ∧
    valuesOf "version" members = [.number (.integer formatVersion)] ∧
    valuesOf "types" members = [types] ∧ AreTypes types database

inductive IsVersion : Reading → Option Int → Prop
  | null : IsVersion .null none
  | number {version : Int} : 0 ≤ version → version < 0x100000000 →
      IsVersion (.number (.integer version)) (some version)

inductive HasVersion (text : List Char) : Option Int → Prop
  | absent {members : List (String × Reading)} : SpellsObject members text →
      valuesOf "version" members = [] → HasVersion text none
  | member {members : List (String × Reading)} {value : Reading} {found : Option Int} :
      SpellsObject members text → valuesOf "version" members = [value] →
        IsVersion value found → HasVersion text found
  | first {value : Reading} {found : Option Int} : PaddedSpelled (.array [value] none) text →
      IsVersion value found → HasVersion text found

theorem asMember_eq_ok_iff {value : Reading} {member : Member} :
    asMember value = .ok member ↔ IsMember value member := by
  constructor
  · intro h
    unfold asMember at h
    split at h
    · cases h
    · next name flag hpair =>
        obtain ⟨first, second, rfl, hfirst, hsecond⟩ := asPair_eq_ok_iff.1 hpair
        obtain rfl := asString_eq_ok_iff.1 hfirst
        obtain ⟨rfl, -, -⟩ := asInteger_eq_ok_iff.1 hsecond
        split at h
        · next hflag =>
            obtain rfl := Except.ok.inj h
            exact hflag ▸ .property name
        split at h
        · next hflag =>
            obtain rfl := Except.ok.inj h
            exact hflag ▸ .method name
        · cases h
  · rintro (⟨name⟩ | ⟨name⟩) <;> rfl

theorem asMembers_eq_ok_iff {value : Reading} {members : List Member} :
    asList asMember value = .ok members ↔ AreMembers value members := by
  simp only [asList_eq_ok_iff, asMember_eq_ok_iff, AreMembers]

theorem foldlM_types {types : List (String × Reading)} {start database : Database} :
    types.foldlM (fun database type =>
        (asList asMember type.2).map (database.insert type.1)) start = .ok database ↔
      ∃ entries, List.Forall₂ IsEntry types entries ∧
        entries.foldl (fun m entry => m.insert entry.1 entry.2) start = database := by
  induction types generalizing start with
  | nil => simp [pure, Except.pure]
  | cons type rest ih =>
      rw [List.foldlM_cons, bind_eq_ok_iff]
      simp only [map_eq_ok_iff, asMembers_eq_ok_iff, ih, List.forall₂_cons_left_iff]
      constructor
      · rintro ⟨_, ⟨members, hmembers, rfl⟩, entries, hrest, hfold⟩
        exact ⟨(type.1, members) :: entries, ⟨_, _, ⟨rfl, hmembers⟩, hrest, rfl⟩, hfold⟩
      · rintro ⟨_, ⟨⟨name, members⟩, entries, ⟨rfl, hmembers⟩, hrest, rfl⟩, hfold⟩
        exact ⟨_, ⟨members, hmembers, rfl⟩, entries, hrest, hfold⟩

theorem asTypes_eq_ok_iff {value : Reading} {database : Database} :
    asTypes value = .ok database ↔ AreTypes value database := by
  have hlast (entries : List (String × List Member)) :
      entries.foldl (fun m entry => m.insert entry.1 entry.2) empty = database ↔
        ∀ type, database.find? type = (valuesOf type entries).getLast? := by
    constructor
    · rintro rfl type
      exact find?_ofList entries type
    · intro h
      exact ext_find? fun type => (find?_ofList entries type).trans (h type).symm
  constructor
  · intro h
    unfold asTypes at h
    split at h
    · obtain ⟨rfl, types, rfl, hfold⟩ := foldMembers_eq_ok_iff.1 h
      obtain ⟨entries, hentries, hfold⟩ := foldlM_types.1 hfold
      exact ⟨types, entries, rfl, hentries, (hlast entries).1 hfold⟩
    · exact absurd h (refuse_ne_ok _ _)
  · rintro ⟨types, entries, rfl, hentries, hfind⟩
    exact foldMembers_eq_ok_iff.2
      ⟨rfl, types, rfl, foldlM_types.2 ⟨entries, hentries, (hlast entries).2 hfind⟩⟩

theorem asVersion_eq_ok_iff {value : Reading} {version : Int} :
    asVersion value = .ok version ↔ IsVersion value (some version) := by
  rw [asVersion, asInteger_eq_ok_iff]
  constructor
  · rintro ⟨rfl, hlow, hhigh⟩
    exact .number hlow hhigh
  · intro h
    cases h with
    | number hlow hhigh => exact ⟨rfl, hlow, hhigh⟩

theorem asOptionalVersion_eq_ok_iff {value : Reading} {found : Option Int} :
    asOption asVersion value = .ok found ↔ IsVersion value found := by
  constructor
  · intro h
    unfold asOption at h
    split at h
    · obtain rfl := Except.ok.inj h
      exact .null
    · obtain ⟨version, hversion, rfl⟩ := map_eq_ok_iff.1 h
      exact asVersion_eq_ok_iff.1 hversion
  · intro h
    cases h with
    | null => rfl
    | number hlow hhigh => exact map_eq_ok_iff.2 ⟨_, asVersion_eq_ok_iff.2 (.number hlow hhigh), rfl⟩

theorem IsVersion.skipFlaw? {value : Reading} {found : Option Int}
    (h : IsVersion value found) : value.skipFlaw? = none := by
  cases h <;> rfl

theorem foldlM_takeField {members : List (String × Reading)} {start last : Fields} :
    members.foldlM (fun fields member => takeField fields member.1 member.2) start = .ok last ↔
      onceEach start.version asVersion (valuesOf "version" members) = .ok last.version ∧
      onceEach start.types asTypes (valuesOf "types" members) = .ok last.types ∧
        ∀ member ∈ members, member.1 ≠ "version" → member.1 ≠ "types" →
          member.2.skipFlaw? = none :=
  foldlM_two_eq_ok_iff Fields.version Fields.types Fields.mk (fun _ _ => rfl) (fun _ _ => rfl)
    (fun _ => rfl) (by decide)

theorem asFoundVersion_object {members : List (Option String × Reading)} {stop : Option Stop}
    {found : Option Int} : asFoundVersion (.object members stop) = .ok found ↔ stop = none ∧
      ∃ list, members = named list ∧ (∀ member ∈ list, member.2.skipFlaw? = none) ∧
        (valuesOf "version" list = [] ∧ found = none ∨
          ∃ version, valuesOf "version" list = [version] ∧ IsVersion version found) := by
  simp only [asFoundVersion, map_eq_ok_iff, foldMembers_eq_ok_iff, foldlM_once_eq_ok_iff]
  constructor
  · rintro ⟨last, ⟨hstop, list, rfl, honce, hothers⟩, rfl⟩
    refine ⟨hstop, list, rfl, fun member hmem => ?_, ?_⟩
    · by_cases hkey : member.1 = "version"
      · exact skipFlaw?_of_onceEach
          (fun _ _ hversion => (asOptionalVersion_eq_ok_iff.1 hversion).skipFlaw?) honce hmem hkey
      · exact hothers member hmem hkey
    · rcases onceEach_eq_ok_iff.1 honce with ⟨hnil, rfl⟩ | ⟨value, found, hone, hfound, rfl⟩
      · exact .inl ⟨hnil, rfl⟩
      · exact .inr ⟨value, hone, asOptionalVersion_eq_ok_iff.1 hfound⟩
  · rintro ⟨hstop, list, rfl, hflaws, ⟨hnil, rfl⟩ | ⟨version, hone, hversion⟩⟩
    · exact ⟨none, ⟨hstop, list, rfl, onceEach_eq_ok_iff.2 (.inl ⟨hnil, rfl⟩),
        fun member hmem _ => hflaws member hmem⟩, rfl⟩
    · have hfound := asOptionalVersion_eq_ok_iff.2 hversion
      exact ⟨some found, ⟨hstop, list, rfl,
        onceEach_eq_ok_iff.2 (.inr ⟨version, found, hone, hfound, rfl⟩),
        fun member hmem _ => hflaws member hmem⟩, rfl⟩

theorem asFoundVersion_array {items : List Reading} {stop : Option Stop} {found : Option Int} :
    asFoundVersion (.array items stop) = .ok found ↔
      stop = none ∧ ∃ version, items = [version] ∧ IsVersion version found := by
  constructor
  · intro h
    simp only [asFoundVersion] at h
    split at h
    · cases h
    · next version rest hnext =>
        obtain ⟨item, rfl, hitem⟩ := nextItem_eq_ok_iff.1 hnext
        obtain ⟨rfl, hstop, rfl⟩ := atLast_eq_ok_iff.1 h
        exact ⟨hstop, item, rfl, asOptionalVersion_eq_ok_iff.1 hitem⟩
  · rintro ⟨rfl, version, rfl, hversion⟩
    simp only [asFoundVersion, nextItem, asOptionalVersion_eq_ok_iff.2 hversion, Except.map, atLast,
      atEnd]

theorem skipFlaw?_of_asFoundVersion {value : Reading} {found : Option Int}
    (h : asFoundVersion value = .ok found) : value.skipFlaw? = none := by
  cases value with
  | object members stop =>
      obtain ⟨rfl, list, rfl, hflaws, -⟩ := asFoundVersion_object.1 h
      exact skipFlaw?_named.2 hflaws
  | array items stop =>
      obtain ⟨rfl, version, rfl, hversion⟩ := asFoundVersion_array.1 h
      simp [skipFlaw?, skipItems?, hversion.skipFlaw?]
  | null | bool | number | string | unreadable | stopped => cases h

theorem decode_asFoundVersion {text : List Char} {found : Option Int} :
    (ofText text).decode asFoundVersion = .ok found ↔ HasVersion text found := by
  rw [decode_ofText_eq_ok_iff fun _ _ => skipFlaw?_of_asFoundVersion]
  constructor
  · rintro ⟨value, hspelled, h⟩
    cases value with
    | object members stop =>
        obtain ⟨rfl, list, rfl, -, ⟨hnil, rfl⟩ | ⟨version, hone, hversion⟩⟩ :=
          asFoundVersion_object.1 h
        · exact .absent hspelled hnil
        · exact .member hspelled hone hversion
    | array items stop =>
        obtain ⟨rfl, version, rfl, hversion⟩ := asFoundVersion_array.1 h
        exact .first hspelled hversion
    | null | bool | number | string | unreadable | stopped => cases h
  · intro h
    cases h with
    | absent hspelled hnil =>
        exact ⟨_, hspelled, asFoundVersion_object.2
          ⟨rfl, _, rfl, skipFlaw?_named.1 hspelled.skipFlaw?, .inl ⟨hnil, rfl⟩⟩⟩
    | member hspelled hone hversion =>
        exact ⟨_, hspelled, asFoundVersion_object.2
          ⟨rfl, _, rfl, skipFlaw?_named.1 hspelled.skipFlaw?, .inr ⟨_, hone, hversion⟩⟩⟩
    | first hspelled hversion =>
        exact ⟨_, hspelled, asFoundVersion_array.2 ⟨rfl, _, rfl, hversion⟩⟩

theorem asBody_object {members : List (String × Reading)} {database : Database}
    (hflaws : ∀ member ∈ members, member.2.skipFlaw? = none) :
    asBody (.object (named members) none) = .ok database ↔
      (∃ value version, valuesOf "version" members = [value] ∧ IsVersion value (some version)) ∧
      ∃ types, valuesOf "types" members = [types] ∧ AreTypes types database := by
  have hfold (fields : Fields) : foldMembers takeField {} (named members) none = .ok fields ↔
      onceEach none asVersion (valuesOf "version" members) = .ok fields.version ∧
      onceEach none asTypes (valuesOf "types" members) = .ok fields.types := by
    rw [foldMembers_eq_ok_iff]
    constructor
    · rintro ⟨-, list, hlist, hfold⟩
      obtain rfl := named_injective hlist
      obtain ⟨hversion, htypes, -⟩ := foldlM_takeField.1 hfold
      exact ⟨hversion, htypes⟩
    · rintro ⟨hversion, htypes⟩
      exact ⟨rfl, members, rfl, foldlM_takeField.2
        ⟨hversion, htypes, fun member hmem _ _ => hflaws member hmem⟩⟩
  constructor
  · intro h
    simp only [asBody] at h
    split at h
    · cases h
    · next fields hfields =>
        obtain ⟨hversion, htypes⟩ := (hfold fields).1 hfields
        split at h
        · next version types hsome hsomeTypes =>
            obtain rfl := Except.ok.inj h
            rw [hsome] at hversion
            rw [hsomeTypes] at htypes
            obtain ⟨value, hone, hvalue⟩ := onceEach_eq_some_iff.1 hversion
            obtain ⟨value', honeTypes, hvalue'⟩ := onceEach_eq_some_iff.1 htypes
            exact ⟨⟨value, version, hone, asVersion_eq_ok_iff.1 hvalue⟩, value', honeTypes,
              asTypes_eq_ok_iff.1 hvalue'⟩
        · cases h
  · rintro ⟨⟨value, version, hone, hversion⟩, types, honeTypes, htypes⟩
    have hfields := (hfold ⟨some version, some database⟩).2
      ⟨onceEach_eq_some_iff.2 ⟨value, hone, asVersion_eq_ok_iff.2 hversion⟩,
        onceEach_eq_some_iff.2 ⟨types, honeTypes, asTypes_eq_ok_iff.2 htypes⟩⟩
    simp only [asBody, hfields]

theorem asBody_singleton_ne_ok (version : Reading) (stop : Option Stop) (database : Database) :
    asBody (.array [version] stop) ≠ .ok database := by
  cases hversion : asVersion version with
  | error refusal => simp [asBody, nextItem, hversion, Except.map]
  | ok n => cases stop <;> simp [asBody, nextItem, hversion, Except.map]

theorem IsArtifact.hasVersion {text : List Char} {database : Database} (h : IsArtifact text database) :
    HasVersion text (some formatVersion) := by
  obtain ⟨members, types, hspelled, hversion, -⟩ := h
  exact .member hspelled hversion (.number (by decide) (by decide))

theorem decode_asBody {text : List Char} (hversion : HasVersion text (some formatVersion))
    {database : Database} :
    (ofText text).decode asBody = .ok database ↔ IsArtifact text database := by
  rw [Whole.decode_eq_ok_iff]
  constructor
  · rintro ⟨hbody, -⟩
    cases hversion with
    | member hspelled hone hvalue =>
        rw [ofText_of_spelled hspelled,
          asBody_object (skipFlaw?_named.1 hspelled.skipFlaw?)] at hbody
        obtain ⟨-, types, htypes, hdatabase⟩ := hbody
        cases hvalue
        exact ⟨_, types, hspelled, hone, htypes, hdatabase⟩
    | first hspelled _ =>
        -- an array that has room for a version only has none for the types
        rw [ofText_of_spelled hspelled] at hbody
        exact absurd hbody (asBody_singleton_ne_ok _ _ _)
  · rintro ⟨members, types, hspelled, hone, htypes, hdatabase⟩
    rw [ofText_of_spelled hspelled, asBody_object (skipFlaw?_named.1 hspelled.skipFlaw?)]
    exact ⟨⟨⟨_, _, hone, .number (by decide) (by decide)⟩, types, htypes, hdatabase⟩, rfl⟩

theorem read_eq_ok_iff {text : String} {database : Database} :
    read text = .ok database ↔ IsArtifact text.toList database := by
  constructor
  · intro h
    simp only [read] at h
    split at h
    · cases h
    · next found hfound =>
        split at h
        · next hformat =>
            have hversion : HasVersion text.toList (some formatVersion) :=
              hformat ▸ decode_asFoundVersion.1 hfound
            exact (decode_asBody hversion).1 (mapError_eq_ok_iff.1 h)
        · cases h
  · intro h
    have hfound := decode_asFoundVersion.2 h.hasVersion
    simp only [read, hfound, if_true, mapError_eq_ok_iff]
    exact (decode_asBody h.hasVersion).2 h

theorem read_eq_unsupportedVersion_iff {text : String} {found : Option Int} :
    read text = .error (.unsupportedVersion found) ↔
      HasVersion text.toList found ∧ found ≠ some formatVersion := by
  constructor
  · intro h
    simp only [read] at h
    split at h
    · cases h
    · next found' hfound =>
        split at h
        · cases hbody : (ofText text.toList).decode asBody <;> rw [hbody] at h <;> cases h
        · next hformat =>
            cases h
            exact ⟨decode_asFoundVersion.1 hfound, hformat⟩
  · rintro ⟨hversion, hformat⟩
    simp only [read, decode_asFoundVersion.2 hversion, if_neg hformat]

theorem read_cases (text : String) :
    (∃ database, read text = .ok database) ∨
    (∃ found, read text = .error (.unsupportedVersion found)) ∨
      ∃ refusal, read text = .error (.refused refusal) := by
  simp only [read]
  split
  · next refusal _ => exact .inr (.inr ⟨refusal, rfl⟩)
  · next found _ =>
      split
      · cases (ofText text.toList).decode asBody with
        | error refusal => exact .inr (.inr ⟨refusal, rfl⟩)
        | ok database => exact .inl ⟨database, rfl⟩
      · exact .inr (.inl ⟨found, rfl⟩)

theorem read_refused_iff {text : String} :
    (∃ refusal, read text = .error (.refused refusal)) ↔
      (¬∃ database, IsArtifact text.toList database) ∧
        ¬∃ found, HasVersion text.toList found ∧ found ≠ some formatVersion := by
  simp only [← read_eq_ok_iff, ← read_eq_unsupportedVersion_iff]
  constructor
  · rintro ⟨refusal, h⟩
    simp [h]
  · rintro ⟨hartifact, hversion⟩
    rcases read_cases text with h | h | h
    · exact absurd h hartifact
    · exact absurd h hversion
    · exact h

theorem HasVersion.exists_spelled {text : List Char} {found : Option Int}
    (h : HasVersion text found) : ∃ value, PaddedSpelled value text := by
  cases h with
  | absent hspelled | member hspelled | first hspelled => exact ⟨_, hspelled⟩

theorem not_isArtifact_of_array {items : List Reading} {text : List Char}
    (h : PaddedSpelled (.array items none) text) (database : Database) :
    ¬IsArtifact text database := by
  rintro ⟨members, types, hobject, -⟩
  have heq := (ofText_of_spelled h).symm.trans (ofText_of_spelled hobject)
  cases congrArg Whole.value heq

theorem read_exact (text : String) :
    (∀ database, read text = .ok database ↔ IsArtifact text.toList database) ∧
    (∀ found, read text = .error (.unsupportedVersion found) ↔
      HasVersion text.toList found ∧ found ≠ some formatVersion) ∧
    ((∃ refusal, read text = .error (.refused refusal)) ↔
      (¬∃ database, IsArtifact text.toList database) ∧
        ¬∃ found, HasVersion text.toList found ∧ found ≠ some formatVersion) ∧
    ((∃ value, PaddedSpelled value text.toList) ∨
      ∃ refusal, read text = .error (.refused refusal)) ∧
    ¬∃ items database, PaddedSpelled (.array items none) text.toList ∧ read text = .ok database := by
  refine ⟨fun _ => read_eq_ok_iff, fun _ => read_eq_unsupportedVersion_iff, read_refused_iff, ?_, ?_⟩
  · by_cases hspelled : ∃ value, PaddedSpelled value text.toList
    · exact .inl hspelled
    · refine .inr (read_refused_iff.2 ⟨?_, ?_⟩)
      · rintro ⟨database, h⟩
        exact hspelled h.hasVersion.exists_spelled
      · rintro ⟨found, h, -⟩
        exact hspelled h.exists_spelled
  · rintro ⟨items, database, hspelled, h⟩
    exact not_isArtifact_of_array hspelled database (read_eq_ok_iff.1 h)

end HtmlIds.Artifact
