import HtmlIds.Config.Format
import HtmlIds.Proofs.Config.Decoding
import HtmlIds.Proofs.FileSystem
import HtmlIds.Proofs.Text.Bytes

namespace HtmlIds

inductive ConfigFormat.Gives : ConfigFormat → String → Config → Prop
  | blank {text : String} : (∀ c ∈ text.toList, isBlank c = true) → Gives .yaml text {}
  | yaml {text : String} {value : Reading} {config : Config} :
      ¬(∀ c ∈ text.toList, isBlank c = true) → Yaml.ofText text.toList = ⟨value, none⟩ →
        Config.IsConfig (forms .yaml) value config → Gives .yaml text config
  | json {text : String} {value : Reading} {config : Config} :
      Reading.PaddedSpelled value text.toList → Config.IsConfig (forms .json) value config →
        Gives .json text config

theorem ConfigFormat.decode_eq_ok_iff {format : ConfigFormat} {text : String} {config : Config} :
    format.decode text = .ok config ↔ format.Gives text config := by
  cases format with
  | yaml =>
      by_cases hblank : ∀ c ∈ text.toList, isBlank c = true
      · simp only [decode, trim_eq_nil_iff.2 hblank, decide_true, Bool.and_self, if_true]
        constructor
        · intro h
          obtain rfl := Except.ok.inj h
          exact .blank hblank
        · rintro (_ | hvisible)
          · rfl
          · exact absurd hblank hvisible
      · have hvisible := mt trim_eq_nil_iff.1 hblank
        simp only [decode, hvisible, decide_true, decide_false, Bool.and_false, Bool.false_eq_true, if_false,
          Reading.Whole.decode_eq_ok_iff, Config.decode_eq_ok_iff]
        constructor
        · rintro ⟨hconfig, htrailing⟩
          exact .yaml hblank (congrArg (Reading.Whole.mk _) htrailing) hconfig
        · rintro (hblank' | ⟨-, htext, hconfig⟩)
          · exact absurd hblank' hblank
          · rw [reading, htext]
            exact ⟨hconfig, rfl⟩
  | json =>
      have hseen : ∀ value config, Config.decode (forms .json) value = .ok config →
          value.skipFlaw? = none := fun _ _ h => (Config.decode_eq_ok_iff.1 h).skipFlaw?
      simp only [decode, reduceCtorEq, decide_false, Bool.false_and, Bool.false_eq_true, if_false,
        reading, Reading.decode_ofText_eq_ok_iff hseen, Config.decode_eq_ok_iff]
      constructor
      · rintro ⟨value, hspelled, hconfig⟩
        exact .json hspelled hconfig
      · rintro (_ | _ | ⟨hspelled, hconfig⟩)
        exact ⟨_, hspelled, hconfig⟩

namespace Config

def GivesFirst (formats : List ConfigFormat) (text : String) (config : Config) : Prop :=
  ∃ earlier format later, formats = earlier ++ format :: later ∧
    (∀ other ∈ earlier, ∀ given, ¬other.Gives text given) ∧ format.Gives text config

structure Accepts (path text : String) (config : Config) : Prop where
  gives : GivesFirst (ConfigFormat.ofPath path) text config
  valid : config.database ≠ some ""

inductive TakenIn (directory : String) : String → String → Prop
  | absolute {path : String} : Path.isAbsolute path = true → TakenIn directory path path
  | relative {path : String} : Path.isAbsolute path = false →
      TakenIn directory path (Path.join directory path)

inductive IsLoaded (files : FileSystem) (path : String) : Config → Prop
  | file {bytes : ByteArray} {text directory : String} {written : Config} {database : Option String} :
      files.find path = .ok (.file bytes) → String.fromUTF8? bytes = some text →
      Accepts path text written → Path.parent? path = some directory →
      Option.Rel (TakenIn directory) written.database database →
        IsLoaded files path { written with database }

def IsOptions (options : Json) (config : Config) : Prop :=
  options = .null ∧ config = {} ∨ IsConfig (ConfigFormat.forms .json) (Reading.ofJson options) config

variable {files : FileSystem} {path text : String} {config : Config}

theorem givesFirst_cons_iff {format : ConfigFormat} {others : List ConfigFormat} :
    GivesFirst (format :: others) text config ↔
      format.Gives text config ∨ (∀ given, ¬format.Gives text given) ∧ GivesFirst others text config := by
  constructor
  · rintro ⟨earlier, chosen, later, heq, hsilent, hgives⟩
    cases earlier with
    | nil =>
        obtain ⟨rfl, rfl⟩ := List.cons.inj heq
        exact .inl hgives
    | cons first earlier =>
        obtain ⟨rfl, rfl⟩ := List.cons.inj heq
        obtain ⟨hfirst, hrest⟩ := List.forall_mem_cons.1 hsilent
        exact .inr ⟨hfirst, earlier, chosen, later, rfl, hrest, hgives⟩
  · rintro (hgives | ⟨hsilent, earlier, chosen, later, rfl, hrest, hgives⟩)
    · exact ⟨[], format, others, rfl, List.forall_mem_nil _, hgives⟩
    · exact ⟨format :: earlier, chosen, later, rfl, List.forall_mem_cons.2 ⟨hsilent, hrest⟩, hgives⟩

theorem not_givesFirst_nil : ¬GivesFirst [] text config := by
  rintro ⟨earlier, format, later, heq, -⟩
  exact List.append_ne_nil_of_right_ne_nil earlier (List.cons_ne_nil format later) heq.symm

theorem decodeFirst_eq_ok_iff {formats : List ConfigFormat} :
    decodeFirst path text formats = .ok config ↔ GivesFirst formats text config := by
  induction formats with
  | nil => simp [decodeFirst, not_givesFirst_nil]
  | cons format others ih =>
      rw [givesFirst_cons_iff]
      simp only [← ConfigFormat.decode_eq_ok_iff, ← ih]
      cases hformat : format.decode text with
      | ok given => simp [decodeFirst, hformat]
      | error refusal => cases others <;> simp [decodeFirst, hformat]

theorem ofText_eq_ok_iff : ofText path text = .ok config ↔ Accepts path text config := by
  rw [ofText]
  constructor
  · intro h
    split at h
    · cases h
    · next given hgiven =>
        split at h
        · cases h
        · next hvalid =>
            obtain rfl := Except.ok.inj h
            exact ⟨decodeFirst_eq_ok_iff.1 hgiven, hvalid⟩
  · rintro ⟨hgives, hvalid⟩
    simp only [decodeFirst_eq_ok_iff.2 hgives, if_neg hvalid]

theorem Accepts.exists_parent? (h : Accepts path text config) :
    ∃ directory, Path.parent? path = some directory := by
  have hformats : ConfigFormat.ofPath path ≠ [] := by
    intro hnil
    exact not_givesFirst_nil (hnil ▸ h.gives)
  obtain ⟨name, hname⟩ : ∃ name, Path.fileName? path = some name := by
    rw [ConfigFormat.ofPath] at hformats
    split at hformats
    · next extension hextension => exact Path.exists_fileName?_of_extension? hextension
    · split at hformats
      · next hname => exact ⟨_, hname⟩
      · exact absurd rfl hformats
  exact Path.exists_parent?_of_fileName? hname

theorem readText_eq_ok_iff : files.readText path = .ok text ↔
    ∃ bytes, files.find path = .ok (.file bytes) ∧ String.fromUTF8? bytes = some text := by
  rw [FileSystem.readText, FileSystem.readBytes]
  cases files.find path with
  | error problem => simp
  | ok tree =>
      cases tree with
      | directory entries => simp
      | file bytes => cases hbytes : String.fromUTF8? bytes <;> simp [hbytes]

theorem takenIn_iff {directory written place : String} : TakenIn directory written place ↔
    (if Path.isAbsolute written then written else Path.join directory written) = place := by
  constructor
  · rintro (habsolute | hrelative)
    · exact if_pos habsolute
    · exact if_neg (Bool.eq_false_iff.1 hrelative)
  · rintro rfl
    split
    · next habsolute => exact .absolute habsolute
    · next hrelative => exact .relative (Bool.eq_false_iff.2 hrelative)

theorem resolve_eq_iff {written : Config} {directory : String} : written.resolve directory = config ↔
    ∃ database, Option.Rel (TakenIn directory) written.database database ∧
      config = { written with database } := by
  obtain ⟨database, rule⟩ := written
  cases database with
  | none =>
      constructor
      · rintro rfl
        exact ⟨none, .none, rfl⟩
      · rintro ⟨_, _ | _, rfl⟩
        rfl
  | some place =>
      constructor
      · rintro rfl
        exact ⟨_, .some (takenIn_iff.2 rfl), rfl⟩
      · rintro ⟨_, hplace | _, rfl⟩
        rw [← takenIn_iff.1 hplace]
        rfl

theorem load_eq_ok_iff : load files path = .ok config ↔ IsLoaded files path config := by
  rw [load]
  constructor
  · intro h
    split at h
    · cases h
    · next text htext =>
        obtain ⟨bytes, hbytes, hdecoded⟩ := readText_eq_ok_iff.1 htext
        obtain ⟨written, hwritten, hresolved⟩ := Reading.map_eq_ok_iff.1 h
        have haccepts := ofText_eq_ok_iff.1 hwritten
        obtain ⟨directory, hdirectory⟩ := haccepts.exists_parent?
        simp only [hdirectory] at hresolved
        obtain ⟨database, hdatabase, rfl⟩ := resolve_eq_iff.1 hresolved
        exact .file hbytes hdecoded haccepts hdirectory hdatabase
  · rintro (⟨hbytes, hdecoded, haccepts, hdirectory, hdatabase⟩)
    simp only [readText_eq_ok_iff.2 ⟨_, hbytes, hdecoded⟩]
    refine Reading.map_eq_ok_iff.2 ⟨_, ofText_eq_ok_iff.2 haccepts, ?_⟩
    simp only [hdirectory]
    exact resolve_eq_iff.2 ⟨_, hdatabase, rfl⟩

theorem TakenIn.ne_empty {directory written place : String} (h : TakenIn directory written place)
    (hne : written ≠ "") : place ≠ "" := by
  cases h with
  | absolute _ => exact hne
  | relative _ => exact Path.join_ne_empty directory hne

theorem IsLoaded.database_ne (h : IsLoaded files path config) : config.database ≠ some "" := by
  cases h with
  | @file _ _ _ written _ _ _ haccepts _ hdatabase =>
      rintro rfl
      generalize hwritten : written.database = place at hdatabase
      cases hdatabase with
      | some hplace => exact hplace.ne_empty (fun heq => haccepts.valid (heq ▸ hwritten)) rfl

theorem ofOptions_eq_ok_iff {options : Json} :
    ofOptions options = .ok config ↔ IsOptions options config := by
  by_cases hnull : options = .null
  · subst hnull
    constructor
    · intro h
      exact .inl ⟨rfl, (Except.ok.inj h).symm⟩
    · rintro (⟨-, rfl⟩ | hconfig)
      · rfl
      · cases hconfig with
        | null hnulls => cases hnulls
  · have hkept : ¬options.isNull = true := by
      intro h
      cases options with
      | null => exact hnull rfl
      | bool | number | string | array | object => cases h
    rw [ofOptions, if_neg hkept, Reading.mapError_eq_ok_iff, decode_eq_ok_iff, IsOptions]
    simp [hnull]

end Config

end HtmlIds
