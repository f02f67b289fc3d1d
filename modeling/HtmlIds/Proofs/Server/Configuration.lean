import HtmlIds.Proofs.Config.Loading
import HtmlIds.Proofs.Config.Search
import HtmlIds.Server.Basic

namespace HtmlIds.Server

inductive IsWorkspace (startup : Params.Startup) : String → Prop
  | folder {uri : Uri} {others : List Uri} {directory : String} :
      startup.folders = some (uri :: others) → Uri.localPath? uri = some directory →
        IsWorkspace startup directory
  | root {uri : Uri} {directory : String} :
      (∀ first others, startup.folders ≠ some (first :: others)) → startup.root = some uri →
        Uri.localPath? uri = some directory → IsWorkspace startup directory

inductive IsConfigPath (setting : Setting) (startup : Params.Startup) : String → Prop
  | given {path : String} : setting.configPath = some path → IsConfigPath setting startup path
  | found {directory path : String} {chain : List String} : setting.configPath = none →
      IsWorkspace startup directory → Path.Climb directory chain →
      Config.IsNearest setting.files chain path → IsConfigPath setting startup path

def FileGives (setting : Setting) (startup : Params.Startup) (config : Config) : Prop :=
  ∃ path, IsConfigPath setting startup path ∧ Config.IsLoaded setting.files path config

def ClientGives (startup : Params.Startup) (config : Config) : Prop :=
  ∃ options, startup.options = some options ∧ Config.IsOptions options config

def IsLayered {α : Type} (first second : Config → Prop) (field : Config → Option α)
    (result : Option α) : Prop :=
  ∀ value, result = some value ↔ (∃ config, first config ∧ field config = some value) ∨
    (∀ config, first config → field config = none) ∧ ∃ config, second config ∧ field config = some value

structure Amounts (gives : Config → Prop) (config : Config) : Prop where
  unique : ∀ given, gives given → given = config
  empty : (∀ given, ¬gives given) → config = {}

variable {setting : Setting} {startup : Params.Startup} {path directory : String} {config : Config}

theorem workspaceRoot?_eq_some_iff :
    workspaceRoot? startup = some directory ↔ IsWorkspace startup directory := by
  obtain ⟨root, folders, options⟩ := startup
  constructor
  · intro h
    rcases folders with _ | _ | ⟨first, others⟩
    · obtain ⟨uri, hroot, hpath⟩ := Option.bind_eq_some_iff.1 h
      exact .root (by simp) hroot hpath
    · obtain ⟨uri, hroot, hpath⟩ := Option.bind_eq_some_iff.1 h
      exact .root (by simp) hroot hpath
    · exact .folder rfl h
  · rintro (⟨rfl, hpath⟩ | ⟨hnone, rfl, hpath⟩)
    · exact hpath
    · rcases folders with _ | _ | ⟨first, others⟩
      · exact hpath
      · exact hpath
      · exact absurd rfl (hnone first others)

theorem fileConfig_of_isConfigPath (h : IsConfigPath setting startup path) :
    fileConfig setting startup = (Config.load setting.files path).toOption.getD {} := by
  cases h with
  | given hpath => simp only [fileConfig, hpath]
  | found hnone hworkspace hclimb hnearest =>
      simp only [fileConfig, hnone, workspaceRoot?_eq_some_iff.2 hworkspace, Option.bind_some,
        (Config.find?_eq_some_iff_of_climb hclimb).2 hnearest]

theorem fileConfig_of_not_isConfigPath (h : ∀ path, ¬IsConfigPath setting startup path) :
    fileConfig setting startup = {} := by
  cases hpath : setting.configPath with
  | some path => exact absurd (.given hpath) (h path)
  | none =>
      cases hfound : (workspaceRoot? startup).bind (Config.find? setting.files) with
      | none => simp only [fileConfig, hpath, hfound]
      | some path =>
          obtain ⟨directory, hroot, hfind⟩ := Option.bind_eq_some_iff.1 hfound
          have hclimb := Path.climb_ancestors directory
          exact absurd (.found hpath (workspaceRoot?_eq_some_iff.1 hroot) hclimb
            ((Config.find?_eq_some_iff_of_climb hclimb).1 hfind)) (h path)

theorem amounts_fileConfig (setting : Setting) (startup : Params.Startup) :
    Amounts (FileGives setting startup) (fileConfig setting startup) where
  unique := by
    rintro given ⟨path, hpath, hloaded⟩
    rw [fileConfig_of_isConfigPath hpath, Config.load_eq_ok_iff.2 hloaded]
    rfl
  empty := by
    intro hnone
    by_cases hpaths : ∃ path, IsConfigPath setting startup path
    · obtain ⟨path, hpath⟩ := hpaths
      rw [fileConfig_of_isConfigPath hpath]
      cases hload : Config.load setting.files path with
      | error problem => rfl
      | ok given => exact absurd ⟨path, hpath, Config.load_eq_ok_iff.1 hload⟩ (hnone given)
    · exact fileConfig_of_not_isConfigPath (not_exists.1 hpaths)

theorem amounts_clientConfig (startup : Params.Startup) :
    Amounts (ClientGives startup) (clientConfig startup) where
  unique := by
    rintro given ⟨options, hoptions, hgiven⟩
    simp only [clientConfig, hoptions, Config.ofOptions_eq_ok_iff.2 hgiven]
    rfl
  empty := by
    intro hnone
    cases hoptions : startup.options with
    | none => simp only [clientConfig, hoptions]
    | some options =>
        simp only [clientConfig, hoptions]
        cases hgiven : Config.ofOptions options with
        | error problem => rfl
        | ok given => exact absurd ⟨options, hoptions, Config.ofOptions_eq_ok_iff.1 hgiven⟩ (hnone given)

section Fields

variable {α : Type} {gives first second : Config → Prop} {field : Config → Option α}

theorem Amounts.field_eq_some_iff (h : Amounts gives config) (hfield : field {} = none) {value : α} :
    field config = some value ↔ ∃ given, gives given ∧ field given = some value := by
  constructor
  · intro hvalue
    by_cases hgives : ∃ given, gives given
    · obtain ⟨given, hgiven⟩ := hgives
      exact ⟨given, hgiven, h.unique given hgiven ▸ hvalue⟩
    · rw [h.empty (not_exists.1 hgives), hfield] at hvalue
      cases hvalue
  · rintro ⟨given, hgiven, hvalue⟩
    exact h.unique given hgiven ▸ hvalue

theorem Amounts.field_eq_none_iff (h : Amounts gives config) (hfield : field {} = none) :
    field config = none ↔ ∀ given, gives given → field given = none := by
  constructor
  · intro hnone given hgiven
    rw [h.unique given hgiven, hnone]
  · intro hnone
    by_cases hgives : ∃ given, gives given
    · obtain ⟨given, hgiven⟩ := hgives
      exact h.unique given hgiven ▸ hnone given hgiven
    · rw [h.empty (not_exists.1 hgives), hfield]

theorem isLayered_or {config' : Config} (h : Amounts first config) (h' : Amounts second config')
    (hfield : field {} = none) : IsLayered first second field ((field config).or (field config')) := by
  intro value
  rw [Option.or_eq_some_iff, h.field_eq_some_iff hfield, h.field_eq_none_iff hfield,
    h'.field_eq_some_iff hfield]

end Fields

theorem isLayered_database (setting : Setting) (startup : Params.Startup) :
    IsLayered (ClientGives startup) (FileGives setting startup) Config.database
      (startConfig setting startup).database :=
  isLayered_or (amounts_clientConfig startup) (amounts_fileConfig setting startup) rfl

structure LayersSources (setting : Setting) (startup : Params.Startup) : Prop where
  database : IsLayered (ClientGives startup) (FileGives setting startup) Config.database
    (startConfig setting startup).database
  duplicateIds : IsLayered (ClientGives startup) (FileGives setting startup) Config.duplicateIds
    (startConfig setting startup).duplicateIds
  client_alone : (∀ config, ¬FileGives setting startup config) →
    Amounts (ClientGives startup) (startConfig setting startup)
  file_alone : (∀ config, ¬ClientGives startup config) →
    Amounts (FileGives setting startup) (startConfig setting startup)

theorem sources_layered (setting : Setting) (startup : Params.Startup) :
    LayersSources setting startup := by
  have hfile := amounts_fileConfig setting startup
  have hclient := amounts_clientConfig startup
  refine ⟨isLayered_database setting startup, isLayered_or hclient hfile rfl, fun hnone => ?_,
    fun hnone => ?_⟩
  · have hempty : startConfig setting startup = clientConfig startup := by
      rw [startConfig, hfile.empty hnone]
      simp [Config.merge]
    exact hempty ▸ hclient
  · have hempty : startConfig setting startup = fileConfig setting startup := by
      rw [startConfig, hclient.empty hnone]
      simp [Config.merge]
    exact hempty ▸ hfile

end HtmlIds.Server
