import HtmlIds.Dom.Artifact
import HtmlIds.Proofs.Dom.Artifact
import HtmlIds.Proofs.Json.Interruption

namespace HtmlIds.Artifact

open Reading

theorem breakable_encodeMember (member : Member) : (encodeMember member).Breakable := by
  refine (Json.breaksOff_array ?_).breakable (isExact_encodeMember member)
  have hname := (Json.breaksOff_string member.name).breakable trivial
  have hflag : (Json.int (flagOf member.kind)).Breakable := by
    cases member.kind with
    | property => exact Json.breakable_nat (n := 0) (by decide)
    | method => exact Json.breakable_nat (n := 1) (by decide)
  exact List.forall_mem_cons.2 ⟨hname, List.forall_mem_singleton.2 hflag⟩

theorem breaksOff_encodeTypes (database : Database) : (encodeTypes database).BreaksOff := by
  apply Json.breaksOff_object
  intro entry hentry
  obtain ⟨⟨type, members⟩, -, rfl⟩ := List.mem_map.1 hentry
  have hmembers : ∀ item ∈ members.map encodeMember, item.Breakable :=
    List.forall_mem_map.2 fun member _ => breakable_encodeMember member
  refine (Json.breaksOff_array hmembers).breakable (Json.areExact_iff.2 fun item hitem => ?_)
  exact (hmembers item hitem).exact

def head : List Char :=
  r#"{"version":1,"types":"#.toList

def typesDue : State :=
  ⟨[.object [(some "version", .number (.integer formatVersion))] (some (some "types"))], .value, none⟩

theorem foldl_head : head.foldl State.step .start = typesDue := rfl

theorem ready_typesDue : Ready typesDue :=
  ready_keyed .start _ _ []

theorem decode_beginning : ∀ size ≤ head.length,
    (ofText (head.take size)).decode asFoundVersion = .error (.text .truncated) := by
  decide +kernel

theorem decode_unfinished (types : Reading)
    (h : types.skipFlaw? = none ∨ types.skipFlaw? = some .truncated) :
    Whole.decode ⟨.object [(some "version", .number (.integer formatVersion)), (some "types", types)]
      (some (.both .truncated)), none⟩ asFoundVersion = .error (.text .truncated) := by
  have hversion : asOption asVersion (.number (.integer formatVersion)) =
      .ok (some formatVersion) := rfl
  have hkey : ("types" : String) ≠ "version" := by decide
  rcases h with h | h <;>
    simp only [Whole.decode, asFoundVersion, foldMembers, once, hversion, if_true, Except.map,
      if_neg hkey, skip, h, atEnd, Stop.both]

theorem decode_types (database : Database) {part : List Char}
    (hpart : part <+: (encodeTypes database).write) :
    (ofText (head ++ part)).decode asFoundVersion = .error (.text .truncated) := by
  rw [ofText, List.foldl_append, foldl_head]
  by_cases heq : part = (encodeTypes database).write
  · subst heq
    have hspelled := spelled_write _ (isExact_encodeTypes database)
    have hfinish := (hspelled.settles ready_typesDue).finish
    rw [hfinish]
    exact decode_unfinished _ (.inl (skipFlaw?_ofJson _))
  · obtain ⟨inner, hinner, hfinish⟩ := breaksOff_encodeTypes database _ ready_typesDue rfl part hpart heq
    rw [hfinish]
    cases inner with
    | none => exact decode_unfinished (.stopped (.both .truncated)) (.inr rfl)
    | some types => exact decode_unfinished types (.inr (hinner types rfl))

theorem read_truncated (database : Database) (text : String)
    (hpart : text.toList <+: (write database).toList) (hne : text ≠ write database) :
    read text = .error (.refused (.text .truncated)) := by
  have htext : (write database).toList =
      head ++ ((encodeTypes database).write ++ ['}']) := String.toList_ofList
  have hdecode : (ofText text.toList).decode asFoundVersion = .error (.text .truncated) := by
    rw [htext] at hpart
    rcases prefix_append_cases hpart with hhead | ⟨part, heq, hpart⟩
    · rw [List.prefix_iff_eq_take.1 hhead]
      exact decode_beginning _ hhead.length_le
    · rw [heq]
      rcases List.prefix_concat_iff.1 hpart with rfl | hpart
      · exact absurd (String.toList_inj.1 (heq.trans htext.symm)) hne
      · exact decode_types database hpart
  rw [read, hdecode]

def inputType : Database :=
  .ofList [("HTMLInputElement", [⟨"größe", .property⟩, ⟨"a\"b", .method⟩])]

theorem read_truncated_escape :
    let front := r#"{"version":1,"types":{"HTMLInputElement":[["größe",0],["a\"#
    write inputType = front ++ r#""b",1]]}}"# ∧
      read front = .error (.refused (.text .truncated)) := by
  intro front
  have hwritten : write inputType = front ++ r#""b",1]]}}"# := by decide +kernel
  refine ⟨hwritten, read_truncated inputType front ?_ ?_⟩
  · rw [hwritten, String.toList_append]
    exact List.prefix_append ..
  · rw [hwritten]
    decide +kernel

end HtmlIds.Artifact
