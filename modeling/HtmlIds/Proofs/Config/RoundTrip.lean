import HtmlIds.Proofs.Config.Loading
import HtmlIds.Proofs.Json.Compact

namespace HtmlIds

theorem RuleSeverity.parse_display (rule : RuleSeverity) : parse rule.display = .ok rule := by
  cases rule <;> decide

namespace Config

open Reading OrderedMap

variable {config : Config} {path : String}

def databaseText : Option String → List Char
  | none => []
  | some path => Json.writeString "completionDatabase" ++ ':' :: Json.writeString path ++ [',']

def severityText : Option RuleSeverity → List Char
  | none => []
  | some rule => Json.writeString "duplicateIds" ++ ':' :: Json.writeString rule.display

def textOf (config : Config) : List Char :=
  '{' :: databaseText config.database ++ Json.writeString "diagnostics" ++
    ':' :: '{' :: severityText config.duplicateIds ++ ['}', '}']

structure ReadsBack (config : Config) : Prop where
  written : config.encode.compact.toList = textOf config
  options : ofOptions config.encode = .ok config
  text : ∀ path, Path.extension? path = some "json" → config.database ≠ some "" →
    ofText path config.encode.compact = .ok config
  refused : ∀ path, Path.extension? path = some "json" → config.database = some "" →
    ofText path config.encode.compact = .error (.emptyDatabase path)

def ruleMembers (rule : Option RuleSeverity) : List (String × Json) :=
  Json.present [("duplicateIds", rule.map fun rule => .string rule.display)]

def writtenMembers (config : Config) : List (String × Json) :=
  Json.present [("completionDatabase", config.database.map .string),
    ("diagnostics", some (.object (ruleMembers config.duplicateIds)))]

theorem encode_eq (config : Config) : config.encode = .object (writtenMembers config) := by
  refine Json.ofMembers_of_ascending ?_
  obtain ⟨database, rule⟩ := config
  have hkeys : "completionDatabase" < "diagnostics" := by decide
  cases database with
  | none => exact List.pairwise_singleton _ _
  | some path => exact List.pairwise_pair.2 hkeys

theorem write_ruleMembers (rule : Option RuleSeverity) :
    Json.write (.object (ruleMembers rule)) = '{' :: severityText rule ++ ['}'] := by
  cases rule <;> rfl

theorem compact_encode (config : Config) : config.encode.compact.toList = textOf config := by
  rw [encode_eq, Json.compact, String.toList_ofList, textOf]
  have hrule := write_ruleMembers config.duplicateIds
  obtain ⟨database, rule⟩ := config
  cases database with
  | none =>
      change '{' :: (Json.writeString "diagnostics" ++
        ':' :: Json.write (.object (ruleMembers rule))) ++ ['}'] = _
      simp [hrule, databaseText]
  | some path =>
      change '{' :: (Json.writeString "completionDatabase" ++ ':' :: Json.writeString path ++
        ',' :: (Json.writeString "diagnostics" ++
          ':' :: Json.write (.object (ruleMembers rule)))) ++ ['}'] = _
      simp [hrule, databaseText]

theorem isExact_encode (config : Config) : config.encode.IsExact := by
  rw [encode_eq]
  obtain ⟨database, rule⟩ := config
  cases database <;> cases rule <;>
    simp [writtenMembers, ruleMembers, Json.present, Json.IsExact, Json.HaveExact]

theorem isDiagnostics_ruleMembers (forms : RecordForms) (rule : Option RuleSeverity) :
    IsDiagnostics forms (ofJson (.object (ruleMembers rule))) rule := by
  rw [ofJson, ofMembers_eq_named]
  refine .object ?_ (List.forall_mem_map.2 fun member _ => skipFlaw?_ofJson member.2)
  cases rule with
  | none => exact .absent rfl
  | some rule => exact .once rfl (.text (RuleSeverity.parse_display rule))

theorem isConfig_encode (forms : RecordForms) (config : Config) :
    IsConfig forms (ofJson config.encode) config := by
  obtain ⟨database, rule⟩ := config
  have hrule := isDiagnostics_ruleMembers forms rule
  rw [encode_eq, ofJson, ofMembers_eq_named]
  refine .object ?_ ?_ (List.forall_mem_map.2 fun member _ => skipFlaw?_ofJson member.2)
  · cases database with
    | none => exact .absent rfl
    | some path => exact .once rfl (.text path)
  · cases database with
    | none => exact .once rfl hrule
    | some path => exact .once rfl hrule

theorem decodeFirst_encode (hpath : Path.extension? path = some "json") :
    decodeFirst path config.encode.compact (ConfigFormat.ofPath path) = .ok config := by
  have hformats : ConfigFormat.ofPath path = [.json] := by
    rw [ConfigFormat.ofPath, hpath]
    rfl
  have htext : config.encode.compact.toList = config.encode.write := String.toList_ofList
  have hspelled : PaddedSpelled (ofJson config.encode) config.encode.compact.toList :=
    htext ▸ (spelled_write config.encode (isExact_encode config)).padded
  have hgives := ConfigFormat.Gives.json hspelled (isConfig_encode _ config)
  rw [hformats]
  exact decodeFirst_eq_ok_iff.2 (givesFirst_cons_iff.2 (.inl hgives))

theorem configs_read_back :
    (∀ rule, RuleSeverity.parse rule.display = .ok rule) ∧ ∀ config, ReadsBack config := by
  refine ⟨RuleSeverity.parse_display, fun config => ⟨compact_encode config, ?_, ?_, ?_⟩⟩
  · exact ofOptions_eq_ok_iff.2 (.inr (isConfig_encode _ config))
  · intro path hpath hdatabase
    simp only [ofText, decodeFirst_encode hpath, if_neg hdatabase]
  · intro path hpath hdatabase
    simp only [ofText, decodeFirst_encode hpath, if_pos hdatabase]

example : textOf {} = r#"{"diagnostics":{}}"#.toList := by decide

end Config

end HtmlIds
