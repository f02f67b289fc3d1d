import HtmlIds.Editor.Diagnostic
import HtmlIds.Proofs.Index
import HtmlIds.Proofs.Markup.IdDeclarations
import Mathlib.Data.List.Nodup

namespace HtmlIds

namespace OrderedMap

variable {α : Type}

theorem valuesOf_map_pair (key key' : String) (values : List α) :
    valuesOf key' (values.map fun value => (key, value)) = if key' = key then values else [] := by
  induction values with
  | nil => simp [valuesOf]
  | cons value rest ih =>
      rw [List.map_cons, valuesOf_cons, ih]
      split <;> rfl

end OrderedMap

def repeatedDeclarations (text : String) : List IdDeclaration :=
  (idDeclarations text).filter fun declaration => 1 < (declaredIds text).count declaration.value

def ReportedBefore (text : String) (d d' : IdDeclaration) : Prop :=
  (declaredIds text).idxOf d.value < (declaredIds text).idxOf d'.value ∨
    d.value = d'.value ∧ d.span.start < d'.span.start

structure ReportsDuplicate (text : String) (severity : Severity) (d : IdDeclaration)
    (diagnostic : Diagnostic) : Prop where
  start : diagnostic.range.start = (LineTable.ofText text).positionAt d.span.start
  severity_eq : diagnostic.severity = severity
  message : diagnostic.message = "Duplicate id \"" ++ d.value ++ "\" found " ++
    toString ((declaredIds text).count d.value) ++ " times. IDs must be unique."

structure DuplicatesShown (uri : Uri) (text : String) (severity : Severity)
    (shown : OrderedMap (List Diagnostic)) : Prop where
  only : ∀ other, shown.contains other = true → other = uri
  absent : shown.contains uri = false ↔ (declaredIds text).Nodup
  reported : ∃ declarations : List IdDeclaration,
    declarations.Perm (repeatedDeclarations text) ∧ declarations.Nodup ∧
    declarations.Pairwise (ReportedBefore text) ∧
    List.Forall₂ (ReportsDuplicate text severity) declarations ((shown.find? uri).getD [])

namespace Index

def reportedDeclarations (text : String) : List IdDeclaration :=
  (declaredIds text).eraseDups.flatMap fun id =>
    if 1 < (declaredIds text).count id then declarationsOf text id else []

theorem mem_reportedDeclarations {text : String} {d : IdDeclaration} :
    d ∈ reportedDeclarations text ↔ d ∈ repeatedDeclarations text := by
  simp only [reportedDeclarations, repeatedDeclarations, List.mem_flatMap, List.mem_eraseDups,
    List.mem_filter, decide_eq_true_eq]
  constructor
  · rintro ⟨id, -, hmem⟩
    split at hmem
    · next hcount =>
        obtain ⟨hd, rfl⟩ := mem_declarationsOf.1 hmem
        exact ⟨hd, hcount⟩
    · cases hmem
  · rintro ⟨hd, hcount⟩
    refine ⟨d.value, List.mem_map_of_mem hd, ?_⟩
    rw [if_pos hcount]
    exact mem_declarationsOf.2 ⟨hd, rfl⟩

theorem reportedDeclarations_ordered (text : String) :
    (reportedDeclarations text).Pairwise (ReportedBefore text) := by
  have hvalue {id : String} {d : IdDeclaration}
      (h : d ∈ if 1 < (declaredIds text).count id then declarationsOf text id else []) :
      d.value = id := by
    split at h
    · exact (mem_declarationsOf.1 h).2
    · cases h
  refine List.pairwise_flatMap.2 ⟨fun id _ => ?_, ?_⟩
  · split
    · refine ((idDeclarations_ascending text).filter _).imp_of_mem fun hd hd' hlt => .inr ⟨?_, hlt⟩
      rw [(mem_declarationsOf.1 hd).2, (mem_declarationsOf.1 hd').2]
    · exact .nil
  · refine (eraseDups_pairwise (declaredIds text)).imp fun {id id'} hlt d hd d' hd' => .inl ?_
    rw [hvalue hd, hvalue hd']
    exact hlt

theorem ReportedBefore.ne {text : String} {d d' : IdDeclaration} (h : ReportedBefore text d d') :
    d ≠ d' := by
  rintro rfl
  rcases h with hlt | ⟨-, hlt⟩ <;> exact Nat.lt_irrefl _ hlt

theorem reportedDeclarations_nodup (text : String) : (reportedDeclarations text).Nodup :=
  (reportedDeclarations_ordered text).imp ReportedBefore.ne

theorem repeatedDeclarations_nodup (text : String) : (repeatedDeclarations text).Nodup :=
  (idDeclarations_nodup text).filter _

theorem reportedDeclarations_perm (text : String) :
    (reportedDeclarations text).Perm (repeatedDeclarations text) :=
  (List.perm_ext_iff_of_nodup (reportedDeclarations_nodup text)
    (repeatedDeclarations_nodup text)).2 fun _ => mem_reportedDeclarations

theorem repeatedDeclarations_eq_nil_iff {text : String} :
    repeatedDeclarations text = [] ↔ (declaredIds text).Nodup := by
  rw [List.nodup_iff_count_le_one, repeatedDeclarations, List.filter_eq_nil_iff]
  constructor
  · intro h id
    by_cases hid : id ∈ declaredIds text
    · obtain ⟨d, hd, rfl⟩ := List.mem_map.1 hid
      have hcount := h d hd
      simp only [decide_eq_true_eq] at hcount
      omega
    · rw [List.count_eq_zero.2 hid]
      exact Nat.zero_le 1
  · intro h d _
    have hcount := h d.value
    simp only [decide_eq_true_eq]
    omega

def reportOf (uri : Uri) (text : String) (severity : Severity) (d : IdDeclaration) : Diagnostic :=
  .duplicate severity d.value ((declaredIds text).count d.value) (siteOf uri (.ofText text) d)

theorem diagnostics_build {rule : RuleSeverity} {severity : Severity}
    (h : rule.severity? = some severity) (uri : Uri) (text : String) :
    (build uri text).diagnostics rule =
      .collect ((reportedDeclarations text).map fun d => (uri, reportOf uri text severity d)) := by
  simp only [diagnostics, h, groups_build, reportedDeclarations, List.flatMap_map,
    List.map_flatMap]
  congr 2
  funext id
  rw [List.length_map, length_declarationsOf]
  by_cases hcount : 1 < (declaredIds text).count id
  · rw [if_pos hcount, if_pos hcount, List.map_map]
    refine List.map_congr_left fun d hd => ?_
    obtain ⟨-, rfl⟩ := mem_declarationsOf.1 hd
    rfl
  · rw [if_neg hcount, if_neg hcount]
    rfl

def reports (uri : Uri) (text : String) (severity : Severity) : List Diagnostic :=
  (reportedDeclarations text).map (reportOf uri text severity)

theorem reports_eq_nil_iff (uri : Uri) (text : String) (severity : Severity) :
    reports uri text severity = [] ↔ (declaredIds text).Nodup := by
  rw [reports, List.map_eq_nil_iff, ← repeatedDeclarations_eq_nil_iff]
  have hperm := reportedDeclarations_perm text
  constructor
  · intro hempty
    exact (hempty ▸ hperm.symm).eq_nil
  · intro hempty
    exact (hempty ▸ hperm).eq_nil

theorem find?_diagnostics_build {rule : RuleSeverity} {severity : Severity}
    (h : rule.severity? = some severity) (uri : Uri) (text : String) (other : Uri) :
    ((build uri text).diagnostics rule).find? other =
      if other = uri ∧ reports uri text severity ≠ [] then some (reports uri text severity)
      else none := by
  have hmap : ((reportedDeclarations text).map fun d => (uri, reportOf uri text severity d)) =
      (reports uri text severity).map (uri, ·) := List.map_map.symm
  rw [diagnostics_build h, OrderedMap.find?_collect, hmap, OrderedMap.valuesOf_map_pair]
  by_cases hother : other = uri <;> simp [hother]

theorem getD_find?_diagnostics_build {rule : RuleSeverity} {severity : Severity}
    (h : rule.severity? = some severity) (uri : Uri) (text : String) :
    (((build uri text).diagnostics rule).find? uri).getD [] = reports uri text severity := by
  rw [find?_diagnostics_build h]
  by_cases hnil : reports uri text severity = [] <;> simp [hnil]

theorem eq_of_find?_diagnostics {rule : RuleSeverity} {uri other : Uri} {text : String}
    {list : List Diagnostic} (h : ((build uri text).diagnostics rule).find? other = some list) :
    other = uri := by
  cases hrule : rule.severity? with
  | none =>
      rw [diagnostics, hrule] at h
      cases h
  | some severity =>
      rw [find?_diagnostics_build hrule] at h
      split at h
      · next hshown => exact hshown.1
      · cases h

theorem duplicatesShown_diagnostics {rule : RuleSeverity} {severity : Severity}
    (h : rule.severity? = some severity) (uri : Uri) (text : String) :
    DuplicatesShown uri text severity ((build uri text).diagnostics rule) := by
  have hfind := find?_diagnostics_build h uri text
  refine ⟨fun other hother => ?_, ?_, reportedDeclarations text, reportedDeclarations_perm text,
    reportedDeclarations_nodup text, reportedDeclarations_ordered text, ?_⟩
  · obtain ⟨list, hlist⟩ := OrderedMap.contains_iff.1 hother
    rw [hfind] at hlist
    split at hlist
    · next hshown => exact hshown.1
    · cases hlist
  · rw [OrderedMap.contains, hfind, ← reports_eq_nil_iff uri text severity]
    by_cases hnil : reports uri text severity = [] <;> simp [hnil]
  · rw [getD_find?_diagnostics_build h, reports, List.forall₂_map_right_iff, List.forall₂_same]
    intro d _
    exact ⟨rfl, rfl, rfl⟩

theorem duplicates_reported (uri : Uri) (text : String) :
    DuplicatesShown uri text .warning ((build uri text).diagnostics .warn) ∧
      DuplicatesShown uri text .error ((build uri text).diagnostics .error) ∧
      (build uri text).diagnostics .off = .empty :=
  ⟨duplicatesShown_diagnostics rfl uri text, duplicatesShown_diagnostics rfl uri text, rfl⟩

end Index

end HtmlIds
