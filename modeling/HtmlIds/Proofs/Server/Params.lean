import HtmlIds.Server.Params

namespace HtmlIds.Params

theorem isReference_of_uri {value : Json} {id : Uri} (h : uri value = some id) :
    Uri.isReference id = true :=
  (Option.filter_eq_some_iff.1 h).2

theorem exists_field_of_soleField {α : Type} {name : String} {read : Json → Option α} {value : Json}
    {a : α} (h : soleField name read value = some a) : ∃ field, read field = some a := by
  unfold soleField at h
  split at h
  · next field _ => exact ⟨field, h⟩
  · cases h

theorem isReference_of_aboutDocument {value : Json} {id : Uri} (h : aboutDocument value = some id) :
    Uri.isReference id = true := by
  obtain ⟨field, hdocument⟩ := exists_field_of_soleField h
  obtain ⟨inner, huri⟩ := exists_field_of_soleField hdocument
  exact isReference_of_uri huri

theorem opened_eq_some {value : Json} {event : Session.Event} (h : opened value = some event) :
    ∃ id language version text, event = .opened id language version text ∧
      Uri.isReference id = true := by
  obtain ⟨field, hfield⟩ := exists_field_of_soleField h
  split at hfield
  · split at hfield
    · next id language version text huri _ _ _ =>
        exact ⟨id, language, version, text, (Option.some.inj hfield).symm, isReference_of_uri huri⟩
    · cases hfield
  · cases hfield

theorem isReference_of_versioned {value : Json} {id : Uri} {version : Int}
    (h : versioned value = some (id, version)) : Uri.isReference id = true := by
  unfold versioned at h
  split at h
  · split at h
    · next huri _ =>
        cases h
        exact isReference_of_uri huri
    · cases h
  · cases h

theorem isReference_of_changes {value : Json} {id : Uri} {version : Int} {texts : List String}
    (h : changes value = some ((id, version), texts)) : Uri.isReference id = true := by
  unfold changes at h
  split at h
  · split at h
    · next hversioned _ =>
        cases h
        exact isReference_of_versioned hversioned
    · cases h
  · cases h

end HtmlIds.Params
