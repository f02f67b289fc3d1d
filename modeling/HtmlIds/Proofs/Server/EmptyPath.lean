import HtmlIds.Proofs.Server.Configuration

namespace HtmlIds.Server

open OrderedMap

inductive WritesEmptyPath : Json → Prop
  | member {members : List (String × Json)} :
      valuesOf "completionDatabase" members = [.string ""] → WritesEmptyPath (.object members)
  | item {rest : List Json} : WritesEmptyPath (.array (.string "" :: rest))

variable {setting : Setting} {startup : Params.Startup} {config : Config}

theorem database_eq_iff_of_isDatabasePath {value : Json} {database : Option String}
    (h : Config.IsDatabasePath (Reading.ofJson value) database) {path : String} :
    database = some path ↔ value = .string path := by
  rw [← Reading.ofJson_eq_string_iff]
  generalize Reading.ofJson value = reading at h
  cases h <;> simp

theorem database_eq_iff_of_hasField {members : List (String × Json)} {database : Option String}
    (h : Config.HasField Config.IsDatabasePath
      (members.map fun member => (member.1, Reading.ofJson member.2)) "completionDatabase" database)
    {path : String} :
    database = some path ↔ valuesOf "completionDatabase" members = [.string path] := by
  cases h with
  | absent hnil =>
      rw [valuesOf_map_snd, List.map_eq_nil_iff] at hnil
      simp [hnil]
  | once hone hpath =>
      rw [valuesOf_map_snd, List.map_eq_singleton_iff] at hone
      obtain ⟨value, hvalue, rfl⟩ := hone
      rw [hvalue, List.singleton_inj]
      exact database_eq_iff_of_isDatabasePath hpath

theorem writesEmptyPath_object_iff {members : List (String × Json)} :
    WritesEmptyPath (.object members) ↔ valuesOf "completionDatabase" members = [.string ""] := by
  constructor
  · rintro ⟨hone⟩
    exact hone
  · exact .member

theorem writesEmptyPath_array_iff {first : Json} {rest : List Json} :
    WritesEmptyPath (.array (first :: rest)) ↔ first = .string "" := by
  constructor
  · rintro ⟨⟩
    rfl
  · rintro rfl
    exact .item

theorem database_eq_empty_iff_of_object {members : List (String × Json)} {forms : Config.RecordForms}
    (h : Config.IsConfig forms (Reading.ofJson (.object members)) config) :
    config.database = some "" ↔ WritesEmptyPath (.object members) := by
  rw [Reading.ofJson, Reading.ofMembers_eq_named] at h
  generalize hnamed : Reading.named _ = list at h
  cases h with
  | object hdatabase _ _ =>
      obtain rfl := Reading.named_injective hnamed
      exact (database_eq_iff_of_hasField hdatabase).trans writesEmptyPath_object_iff.symm

theorem database_eq_empty_iff_of_array {items : List Json} {forms : Config.RecordForms}
    (h : Config.IsConfig forms (Reading.ofJson (.array items)) config) :
    config.database = some "" ↔ WritesEmptyPath (.array items) := by
  rcases items with _ | ⟨first, _ | ⟨second, _ | ⟨third, rest⟩⟩⟩ <;>
    simp only [Reading.ofJson, Reading.ofItems] at h
  · cases h
    constructor
    · intro hempty
      cases hempty
    · rintro ⟨⟩
  · cases h with
    | item _ hpath => exact (database_eq_iff_of_isDatabasePath hpath).trans writesEmptyPath_array_iff.symm
  · cases h with
    | items _ hpath _ => exact (database_eq_iff_of_isDatabasePath hpath).trans writesEmptyPath_array_iff.symm
  · cases h

theorem database_eq_empty_iff {options : Json} (h : Config.IsOptions options config) :
    config.database = some "" ↔ WritesEmptyPath options := by
  rcases h with ⟨rfl, rfl⟩ | h
  · constructor
    · intro hempty
      cases hempty
    · rintro ⟨⟩
  cases options with
  | null =>
      cases h with
      | null hnulls => cases hnulls
  | bool | number | string => cases h
  | object members => exact database_eq_empty_iff_of_object h
  | array items => exact database_eq_empty_iff_of_array h

theorem load_empty (files : FileSystem) :
    Artifact.load files "" = .error (.unreadable "" .missing) := rfl

theorem start_of_empty {setting : Setting} {params : Json} {startup : Params.Startup}
    (hstartup : Params.startup params = some startup)
    (hempty : (startConfig setting startup).database = some "") (id : RequestId) :
    start setting id params =
      ([.failure id (.database "" (.unreadable "" .missing))], .ended (.database "")) := by
  simp only [start, hstartup, hempty, loadDatabase, load_empty, Option.getD_some]

structure ComesFromOptions (setting : Setting) (startup : Params.Startup) : Prop where
  refused : ∀ path config, Config.load setting.files path = .ok config → config.database ≠ some ""
  accepted : ∀ options config, Config.ofOptions options = .ok config →
    (config.database = some "" ↔ WritesEmptyPath options)
  merged : (startConfig setting startup).database = some "" ↔
    ∃ options config, startup.options = some options ∧ Config.ofOptions options = .ok config ∧
      WritesEmptyPath options
  ended : (startConfig setting startup).database = some "" → ∀ id params,
    Params.startup params = some startup → start setting id params =
      ([.failure id (.database "" (.unreadable "" .missing))], .ended (.database ""))

theorem startConfig_empty_iff : (startConfig setting startup).database = some "" ↔
    ∃ options config, startup.options = some options ∧ Config.IsOptions options config ∧
      WritesEmptyPath options := by
  rw [isLayered_database setting startup]
  constructor
  · rintro (⟨config, ⟨options, hoptions, hconfig⟩, hempty⟩ | ⟨-, config, ⟨path, -, hloaded⟩, hempty⟩)
    · exact ⟨options, config, hoptions, hconfig, (database_eq_empty_iff hconfig).1 hempty⟩
    · exact absurd hempty hloaded.database_ne
  · rintro ⟨options, config, hoptions, hconfig, hwrites⟩
    exact .inl ⟨config, ⟨options, hoptions, hconfig⟩, (database_eq_empty_iff hconfig).2 hwrites⟩

theorem empty_path_from_options (setting : Setting) (startup : Params.Startup) :
    ComesFromOptions setting startup := by
  refine ⟨fun path config h => (Config.load_eq_ok_iff.1 h).database_ne,
    fun options config h => database_eq_empty_iff (Config.ofOptions_eq_ok_iff.1 h), ?_,
    fun hempty id params hstartup => start_of_empty hstartup hempty id⟩
  simp only [Config.ofOptions_eq_ok_iff]
  exact startConfig_empty_iff

theorem empty_option_ends_start :
    let options := Json.object [("completionDatabase", .string "")]
    let params := Json.object [("capabilities", .object []), ("initializationOptions", options)]
    Config.ofText ".htmlidrc.json" options.compact = .error (.emptyDatabase ".htmlidrc.json") ∧
      Config.ofOptions options = .ok { database := some "" } ∧
      start default (.number 1) params =
        ([.failure (.number 1) (.database "" (.unreadable "" .missing))], .ended (.database "")) := by
  intro options params
  have hstartup : Params.startup params = some ⟨none, none, some options⟩ := rfl
  exact ⟨by decide +kernel, by decide, start_of_empty hstartup rfl (.number 1)⟩

end HtmlIds.Server
