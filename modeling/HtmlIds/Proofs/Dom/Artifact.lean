import HtmlIds.Dom.Artifact
import HtmlIds.Proofs.Json.RoundTrip
import HtmlIds.Proofs.OrderedMap
import Mathlib.Logic.Function.Basic

namespace HtmlIds.Artifact

open Reading

theorem isExact_encodeMember (member : Member) : (encodeMember member).IsExact := by
  obtain ⟨name, kind⟩ := member
  cases kind <;> simp [encodeMember, Json.IsExact, Json.AreExact, Json.int, JsonNumber.IsWord, flagOf]

theorem isExact_encodeTypes (database : Database) : (encodeTypes database).IsExact := by
  rw [encodeTypes, Json.IsExact, Json.haveExact_iff]
  intro entry hmem
  obtain ⟨⟨type, members⟩, -, rfl⟩ := List.mem_map.1 hmem
  rw [Json.IsExact, Json.areExact_iff]
  intro item hitem
  obtain ⟨member, -, rfl⟩ := List.mem_map.1 hitem
  exact isExact_encodeMember member

theorem isExact_encode (database : Database) : (encode database).IsExact := by
  have hversion : (JsonNumber.integer formatVersion).IsWord := ⟨by decide, by decide⟩
  exact ⟨hversion, isExact_encodeTypes database, trivial⟩

theorem asMember_encodeMember (member : Member) :
    asMember (ofJson (encodeMember member)) = .ok member := by
  obtain ⟨name, kind⟩ := member
  cases kind <;> rfl

theorem mapM_asMember (members : List Member) :
    (ofItems (members.map encodeMember)).mapM asMember = .ok members := by
  induction members with
  | nil => rfl
  | cons member rest ih =>
      rw [List.map_cons, ofItems, List.mapM_cons, asMember_encodeMember, ih]
      rfl

theorem asList_asMember (members : List Member) :
    asList asMember (ofJson (.array (members.map encodeMember))) = .ok members := by
  rw [ofJson, asList, mapM_asMember]
  rfl

theorem foldMembers_types (entries : List (String × List Member)) (database : Database) :
    foldMembers (fun database type value => (asList asMember value).map (database.insert type))
      database (ofMembers (entries.map fun entry => (entry.1, .array (entry.2.map encodeMember))))
        none = .ok (entries.foldl (fun m entry => m.insert entry.1 entry.2) database) := by
  induction entries generalizing database with
  | nil => rfl
  | cons entry rest ih =>
      rw [List.map_cons, ofMembers, foldMembers, asList_asMember]
      exact ih (database.insert entry.1 entry.2)

theorem asTypes_encodeTypes (database : Database) :
    asTypes (ofJson (encodeTypes database)) = .ok database := by
  rw [encodeTypes, ofJson, asTypes, foldMembers_types]
  exact congrArg Except.ok database.ofList_entries

theorem ofJson_encode (database : Database) :
    ofJson (encode database) =
      .object [(some "version", .number (.integer formatVersion)),
        (some "types", ofJson (encodeTypes database))] none := rfl

theorem asFoundVersion_encode (database : Database) :
    asFoundVersion (ofJson (encode database)) = .ok (some formatVersion) := by
  have hversion : asOption asVersion (.number (.integer formatVersion)) =
      .ok (some formatVersion) := rfl
  have hkey : ("types" : String) ≠ "version" := by decide
  have hskip : skip (ε := UnknownFlag) (ofJson (encodeTypes database)) = .ok () := by
    rw [skip, skipFlaw?_ofJson (encodeTypes database)]
  rw [ofJson_encode]
  simp only [asFoundVersion, foldMembers, once, hversion, if_true, Except.map, if_neg hkey, hskip,
    atEnd, Option.join_some]

theorem asBody_encode (database : Database) : asBody (ofJson (encode database)) = .ok database := by
  have hversion : asVersion (.number (.integer formatVersion)) = .ok formatVersion := rfl
  have hkey : ("types" : String) ≠ "version" := by decide
  rw [ofJson_encode]
  simp only [asBody, foldMembers, takeField, once, hversion, if_true, Except.map, if_neg hkey,
    asTypes_encodeTypes, atEnd]

theorem read_write_eq_ok (database : Database) : read (write database) = .ok database := by
  have htext : (write database).toList = (encode database).write := String.toList_ofList
  simp only [read, htext, ofText_write (isExact_encode database), Whole.decode,
    asFoundVersion_encode, asBody_encode, if_true]
  rfl

theorem read_write_lossless :
    (∀ database, read (write database) = .ok database) ∧
    Function.Injective write ∧
    (∀ text database, read text = .ok database → read (write database) = .ok database) := by
  refine ⟨read_write_eq_ok, ?_, ?_⟩
  · intro database database' heq
    have hread := read_write_eq_ok database
    rw [heq, read_write_eq_ok] at hread
    exact (Except.ok.inj hread).symm
  · intro text database _
    exact read_write_eq_ok database

end HtmlIds.Artifact
