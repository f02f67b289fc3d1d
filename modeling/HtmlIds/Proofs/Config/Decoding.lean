import HtmlIds.Config.Basic
import HtmlIds.Proofs.Json.Decoder

namespace HtmlIds.Config

open Reading OrderedMap

inductive HasField {α : Type} (Holds : Reading → Option α → Prop) (members : List (String × Reading))
    (key : String) : Option α → Prop
  | absent : valuesOf key members = [] → HasField Holds members key none
  | once {value : Reading} {found : Option α} : valuesOf key members = [value] →
      Holds value found → HasField Holds members key found

inductive IsDatabasePath : Reading → Option String → Prop
  | null : IsDatabasePath .null none
  | text (path : String) : IsDatabasePath (.string path) (some path)

inductive IsSeverity : Reading → Option RuleSeverity → Prop
  | null : IsSeverity .null none
  | text {text : String} {rule : RuleSeverity} : RuleSeverity.parse text = .ok rule →
      IsSeverity (.string text) (some rule)

inductive IsDiagnostics (forms : RecordForms) : Reading → Option RuleSeverity → Prop
  | object {members : List (String × Reading)} {rule : Option RuleSeverity} :
      HasField IsSeverity members "duplicateIds" rule →
      (∀ member ∈ members, member.2.skipFlaw? = none) →
        IsDiagnostics forms (.object (named members) none) rule
  | noItem : forms.arrays = true → IsDiagnostics forms (.array [] none) none
  | item {value : Reading} {rule : Option RuleSeverity} : forms.arrays = true →
      IsSeverity value rule → IsDiagnostics forms (.array [value] none) rule
  | null : forms.nulls = true → IsDiagnostics forms .null none

inductive IsConfig (forms : RecordForms) : Reading → Config → Prop
  | object {members : List (String × Reading)} {database : Option String}
      {rule : Option RuleSeverity} :
      HasField IsDatabasePath members "completionDatabase" database →
      HasField (IsDiagnostics forms) members "diagnostics" rule →
      (∀ member ∈ members, member.2.skipFlaw? = none) →
        IsConfig forms (.object (named members) none) ⟨database, rule⟩
  | noItem : forms.arrays = true → IsConfig forms (.array [] none) {}
  | item {value : Reading} {database : Option String} : forms.arrays = true →
      IsDatabasePath value database → IsConfig forms (.array [value] none) ⟨database, none⟩
  | items {value value' : Reading} {database : Option String} {rule : Option RuleSeverity} :
      forms.arrays = true → IsDatabasePath value database → IsDiagnostics forms value' rule →
        IsConfig forms (.array [value, value'] none) ⟨database, rule⟩
  | null : forms.nulls = true → IsConfig forms .null {}

variable {α : Type} {forms : RecordForms} {value : Reading} {members : List (String × Reading)}
  {key : String}

theorem hasField_iff {Holds : Reading → Option α → Prop} {decode : Decoder UnknownSeverity (Option α)}
    (h : ∀ value found, decode value = .ok found ↔ Holds value found) {found : Option α} :
    HasField Holds members key found ↔
      ∃ last, onceEach none decode (valuesOf key members) = .ok last ∧ last.join = found := by
  constructor
  · rintro (hnil | ⟨hone, hfound⟩)
    · exact ⟨none, onceEach_eq_ok_iff.2 (.inl ⟨hnil, rfl⟩), rfl⟩
    · exact ⟨some found, onceEach_eq_some_iff.2 ⟨_, hone, (h _ _).2 hfound⟩, rfl⟩
  · rintro ⟨last, honce, rfl⟩
    rcases onceEach_eq_ok_iff.1 honce with ⟨hnil, rfl⟩ | ⟨value, found, hone, hfound, rfl⟩
    · exact .absent hnil
    · exact .once hone ((h _ _).1 hfound)

theorem HasField.skipFlaw? {Holds : Reading → Option α → Prop} {found : Option α}
    (h : HasField Holds members key found)
    (hseen : ∀ value found, Holds value found → value.skipFlaw? = none) {member : String × Reading}
    (hmem : member ∈ members) (hkey : member.1 = key) : member.2.skipFlaw? = none := by
  have hvalue : member.2 ∈ valuesOf key members := mem_valuesOf.2 (hkey ▸ hmem)
  cases h with
  | absent hnil =>
      rw [hnil] at hvalue
      cases hvalue
  | once hone hfound =>
      rw [hone] at hvalue
      obtain rfl := List.mem_singleton.1 hvalue
      exact hseen _ _ hfound

theorem asOption_asString_eq_ok_iff {database : Option String} :
    asOption asString value = .ok (ε := Refusal UnknownSeverity) database ↔
      IsDatabasePath value database := by
  constructor
  · intro h
    unfold asOption at h
    split at h
    · obtain rfl := Except.ok.inj h
      exact .null
    · obtain ⟨path, hpath, rfl⟩ := map_eq_ok_iff.1 h
      obtain rfl := asString_eq_ok_iff.1 hpath
      exact .text path
  · rintro (_ | path)
    · rfl
    · rfl

theorem asSeverity_eq_ok_iff {rule : RuleSeverity} :
    asSeverity value = .ok rule ↔ ∃ text, value = .string text ∧ RuleSeverity.parse text = .ok rule := by
  constructor
  · intro h
    unfold asSeverity at h
    split at h
    · cases h
    · next text htext =>
        obtain rfl := asString_eq_ok_iff.1 htext
        refine ⟨text, rfl, ?_⟩
        cases hparse : RuleSeverity.parse text with
        | error problem =>
            rw [hparse] at h
            cases h
        | ok parsed =>
            rw [hparse] at h
            exact congrArg Except.ok (Except.ok.inj h)
  · rintro ⟨text, rfl, hparse⟩
    simp [asSeverity, asString, hparse, Except.mapError]

theorem asOption_asSeverity_eq_ok_iff {rule : Option RuleSeverity} :
    asOption asSeverity value = .ok rule ↔ IsSeverity value rule := by
  constructor
  · intro h
    unfold asOption at h
    split at h
    · obtain rfl := Except.ok.inj h
      exact .null
    · obtain ⟨rule, hrule, rfl⟩ := map_eq_ok_iff.1 h
      obtain ⟨text, rfl, hparse⟩ := asSeverity_eq_ok_iff.1 hrule
      exact .text hparse
  · rintro (_ | hparse)
    · rfl
    · exact map_eq_ok_iff.2 ⟨_, asSeverity_eq_ok_iff.2 ⟨_, rfl, hparse⟩, rfl⟩

theorem IsDatabasePath.skipFlaw? {database : Option String} (h : IsDatabasePath value database) :
    value.skipFlaw? = none := by
  cases h <;> rfl

theorem IsSeverity.skipFlaw? {rule : Option RuleSeverity} (h : IsSeverity value rule) :
    value.skipFlaw? = none := by
  cases h <;> rfl

theorem IsDiagnostics.skipFlaw? {rule : Option RuleSeverity} (h : IsDiagnostics forms value rule) :
    value.skipFlaw? = none := by
  cases h with
  | object _ hflaws => exact skipFlaw?_named.2 hflaws
  | noItem _ => rfl
  | item _ hrule => simp [Reading.skipFlaw?, skipItems?, hrule.skipFlaw?]
  | null _ => rfl

theorem IsConfig.skipFlaw? {config : Config} (h : IsConfig forms value config) :
    value.skipFlaw? = none := by
  cases h with
  | object _ _ hflaws => exact skipFlaw?_named.2 hflaws
  | noItem _ => rfl
  | item _ hpath => simp [Reading.skipFlaw?, skipItems?, hpath.skipFlaw?]
  | items _ hpath hrule => simp [Reading.skipFlaw?, skipItems?, hpath.skipFlaw?, hrule.skipFlaw?]
  | null _ => rfl

section Diagnostics

variable {rule : Option RuleSeverity}

theorem hasField_severity_iff : HasField IsSeverity members "duplicateIds" rule ↔
    ∃ last, onceEach none (asOption asSeverity) (valuesOf "duplicateIds" members) = .ok last ∧
      last.join = rule :=
  hasField_iff fun _ _ => asOption_asSeverity_eq_ok_iff

theorem asDiagnostics_object {parts : List (Option String × Reading)} {stop : Option Stop} :
    asDiagnostics forms (.object parts stop) = .ok rule ↔
      IsDiagnostics forms (.object parts stop) rule := by
  rw [asDiagnostics, map_eq_ok_iff]
  constructor
  · rintro ⟨last, hparts, hjoin⟩
    obtain ⟨rfl, members, rfl, hfold⟩ := foldMembers_eq_ok_iff.1 hparts
    obtain ⟨honce, hothers⟩ := foldlM_once_eq_ok_iff.1 hfold
    have hrule := hasField_severity_iff.2 ⟨last, honce, hjoin⟩
    refine .object hrule fun member hmem => ?_
    by_cases hkey : member.1 = "duplicateIds"
    · exact hrule.skipFlaw? (fun _ _ h => h.skipFlaw?) hmem hkey
    · exact hothers member hmem hkey
  · rintro (⟨hrule, hflaws⟩)
    obtain ⟨last, honce, hjoin⟩ := hasField_severity_iff.1 hrule
    have hfold := foldlM_once_eq_ok_iff.2 ⟨honce, fun member hmem _ => hflaws member hmem⟩
    exact ⟨last, foldMembers_eq_ok_iff.2 ⟨rfl, _, rfl, hfold⟩, hjoin⟩

theorem asDiagnostics_array {items : List Reading} {stop : Option Stop} :
    asDiagnostics forms (.array items stop) = .ok rule ↔
      IsDiagnostics forms (.array items stop) rule := by
  constructor
  · intro h
    rw [asDiagnostics] at h
    split at h
    · next harrays =>
        split at h
        · cases h
        · next rule' rest hnext =>
            obtain ⟨rfl, rfl, rfl⟩ := atLast_eq_ok_iff.1 h
            rcases nextItem_ok_eq_ok_iff.1 hnext with ⟨rfl, -, -, rfl⟩ | ⟨item, rfl, hitem⟩
            · exact .noItem harrays
            · exact .item harrays (asOption_asSeverity_eq_ok_iff.1 hitem)
    · cases h
  · rintro (_ | harrays | ⟨harrays, hrule⟩)
    · simp [asDiagnostics, harrays, nextItem, atLast, atEnd, Except.map]
    · simp [asDiagnostics, harrays, nextItem, atLast, atEnd, Except.map,
        asOption_asSeverity_eq_ok_iff.2 hrule]

theorem asDiagnostics_eq_ok_iff :
    asDiagnostics forms value = .ok rule ↔ IsDiagnostics forms value rule := by
  cases value with
  | object parts stop => exact asDiagnostics_object
  | array items stop => exact asDiagnostics_array
  | null =>
      rw [asDiagnostics]
      constructor
      · intro h
        split at h
        · next hnulls =>
            obtain rfl := Except.ok.inj h
            exact .null hnulls
        · cases h
      · rintro (_ | _ | _ | hnulls)
        exact if_pos hnulls
  | bool | number | string | stopped | unreadable =>
      refine ⟨fun h => ?_, nofun⟩
      simp only [asDiagnostics] at h
      exact absurd h (refuse_ne_ok _ _)

end Diagnostics

section Records

variable {config : Config}

theorem hasField_database_iff {database : Option String} :
    HasField IsDatabasePath members "completionDatabase" database ↔
      ∃ last, onceEach none (asOption asString) (valuesOf "completionDatabase" members) =
        .ok (ε := Refusal UnknownSeverity) last ∧ last.join = database :=
  hasField_iff fun _ _ => asOption_asString_eq_ok_iff

theorem hasField_diagnostics_iff {rule : Option RuleSeverity} :
    HasField (IsDiagnostics forms) members "diagnostics" rule ↔
      ∃ last, onceEach none (asDiagnostics forms) (valuesOf "diagnostics" members) = .ok last ∧
        last.join = rule :=
  hasField_iff fun _ _ => asDiagnostics_eq_ok_iff

theorem foldlM_takeField {start last : Fields} :
    members.foldlM (fun fields member => takeField forms fields member.1 member.2) start = .ok last ↔
      onceEach (ε := UnknownSeverity) start.database (asOption asString)
        (valuesOf "completionDatabase" members) = .ok last.database ∧
      onceEach start.diagnostics (asDiagnostics forms) (valuesOf "diagnostics" members) =
        .ok last.diagnostics ∧
      ∀ member ∈ members, member.1 ≠ "completionDatabase" → member.1 ≠ "diagnostics" →
        member.2.skipFlaw? = none :=
  foldlM_two_eq_ok_iff Fields.database Fields.diagnostics Fields.mk (fun _ _ => rfl) (fun _ _ => rfl)
    (fun _ => rfl) (by decide)

theorem decode_object {parts : List (Option String × Reading)} {stop : Option Stop} :
    decode forms (.object parts stop) = .ok config ↔ IsConfig forms (.object parts stop) config := by
  rw [decode, map_eq_ok_iff]
  constructor
  · rintro ⟨last, hparts, rfl⟩
    obtain ⟨rfl, members, rfl, hfold⟩ := foldMembers_eq_ok_iff.1 hparts
    obtain ⟨honce, honce', hothers⟩ := foldlM_takeField.1 hfold
    have hdatabase := hasField_database_iff.2 ⟨_, honce, rfl⟩
    have hrule := hasField_diagnostics_iff.2 ⟨_, honce', rfl⟩
    refine .object hdatabase hrule fun member hmem => ?_
    by_cases hkey : member.1 = "completionDatabase"
    · exact hdatabase.skipFlaw? (fun _ _ h => h.skipFlaw?) hmem hkey
    by_cases hkey' : member.1 = "diagnostics"
    · exact hrule.skipFlaw? (fun _ _ h => h.skipFlaw?) hmem hkey'
    · exact hothers member hmem hkey hkey'
  · rintro (⟨hdatabase, hrule, hflaws⟩)
    obtain ⟨database, honce, rfl⟩ := hasField_database_iff.1 hdatabase
    obtain ⟨rule, honce', rfl⟩ := hasField_diagnostics_iff.1 hrule
    refine ⟨⟨database, rule⟩, foldMembers_eq_ok_iff.2 ⟨rfl, _, rfl, ?_⟩, rfl⟩
    exact foldlM_takeField.2 ⟨honce, honce', fun member hmem _ _ => hflaws member hmem⟩

theorem decode_array {items : List Reading} {stop : Option Stop} :
    decode forms (.array items stop) = .ok config ↔ IsConfig forms (.array items stop) config := by
  constructor
  · intro h
    rw [decode] at h
    split at h
    · next harrays =>
        split at h
        · cases h
        · next database rest hfirst =>
            split at h
            · cases h
            · next rule rest' hsecond =>
                obtain ⟨rfl, rfl, rfl⟩ := atLast_eq_ok_iff.1 h
                rcases nextItem_ok_eq_ok_iff.1 hfirst with ⟨rfl, rfl, -, rfl⟩ | ⟨item, rfl, hitem⟩
                · rcases nextItem_ok_eq_ok_iff.1 hsecond with ⟨-, -, -, rfl⟩ | ⟨item, hcons, -⟩
                  · exact .noItem harrays
                  · cases hcons
                · have hpath := asOption_asString_eq_ok_iff.1 hitem
                  rcases nextItem_ok_eq_ok_iff.1 hsecond with ⟨rfl, -, -, rfl⟩ | ⟨item', rfl, hitem'⟩
                  · exact .item harrays hpath
                  · exact .items harrays hpath (asDiagnostics_eq_ok_iff.1 hitem')
    · cases h
  · rintro (_ | harrays | ⟨harrays, hpath⟩ | ⟨harrays, hpath, hrule⟩)
    · simp [decode, harrays, nextItem, atLast, atEnd, Except.map]
    · simp [decode, harrays, nextItem, atLast, atEnd, Except.map, asOption_asString_eq_ok_iff.2 hpath]
    · simp [decode, harrays, nextItem, atLast, atEnd, Except.map, asOption_asString_eq_ok_iff.2 hpath,
        asDiagnostics_eq_ok_iff.2 hrule]

theorem decode_eq_ok_iff : decode forms value = .ok config ↔ IsConfig forms value config := by
  cases value with
  | object parts stop => exact decode_object
  | array items stop => exact decode_array
  | null =>
      rw [decode]
      constructor
      · intro h
        split at h
        · next hnulls =>
            obtain rfl := Except.ok.inj h
            exact .null hnulls
        · cases h
      · rintro (_ | _ | _ | _ | hnulls)
        exact if_pos hnulls
  | bool | number | string | stopped | unreadable =>
      refine ⟨fun h => ?_, nofun⟩
      simp only [decode] at h
      exact absurd h (refuse_ne_ok _ _)

end Records

end HtmlIds.Config
