import HtmlIds.Proofs.Generator.Correlation

namespace HtmlIds.Service

open HtmlIds.Frame (Framed)

def callsFor (type : String) : List Call :=
  let file := Json.string (fileOf type)
  [.tell "open" (Json.ofMembers
    [("file", file), ("fileContent", .string (textOf type)), ("scriptKindName", .string "TS")]),
   .ask "completionInfo" (Json.ofMembers
    [("file", file), ("line", .nat 1), ("offset", .nat ((textOf type).utf8ByteSize + 1)),
     ("includeExternalModuleExports", .bool false), ("includeInsertTextCompletions", .bool true)]),
   .tell "close" (Json.ofMembers [("file", file)])]

def queries (service : Service) :
    List String → List (Except ServiceError (List Member)) × Service
  | [] => ([], service)
  | type :: types =>
    let (answer, service) := service.members type
    if panics answer then ([answer], service)
    else
      let (answers, service) := service.queries types
      (answer :: answers, service)

inductive IsAbout (entry : Json) : Member → Prop
  | method {name : String} : entry.member "name" = .string name →
      entry.member "kind" = .string "method" ∨ entry.member "kind" = .string "function" →
        IsAbout entry ⟨name, .method⟩
  | property {name : String} : entry.member "name" = .string name →
      entry.member "kind" ≠ .string "method" → entry.member "kind" ≠ .string "function" →
        IsAbout entry ⟨name, .property⟩

inductive Lists : List Json → List Member → Prop
  | nil : Lists [] []
  | named {entry : Json} {member : Member} {entries : List Json} {members : List Member} :
      IsAbout entry member → Lists entries members → Lists (entry :: entries) (member :: members)
  | unnamed {entry : Json} {entries : List Json} {members : List Member} :
      (∀ name, entry.member "name" ≠ .string name) → Lists entries members →
        Lists (entry :: entries) members

inductive Yields : Except ServiceError Json → Except ServiceError (List Member) → Prop
  | listed {body : Json} {entries : List Json} {members : List Member} :
      body.member "entries" = .array entries → Lists entries members → Yields (.ok body) (.ok members)
  | nothing {body : Json} : (∀ entries, body.member "entries" ≠ .array entries) →
      Yields (.ok body) (.ok [])
  | failed {problem : ServiceError} : Yields (.error problem) (.error problem)

theorem items?_eq_some_iff {value : Json} {items : List Json} :
    value.items? = some items ↔ value = .array items := by
  cases value <;> simp [Json.items?]

theorem isAbout_of_name {entry : Json} {name : String} (hname : entry.member "name" = .string name) :
    ∃ member, memberOf? entry = some member ∧ IsAbout entry member := by
  rw [memberOf?, text?_eq_some_iff.2 hname, Option.map_some]
  refine ⟨_, rfl, ?_⟩
  dsimp only
  split
  · next hkind =>
      refine .method hname ?_
      cases hentry : entry.member "kind" <;> simp_all [Json.text?]
  · next hkind =>
      refine .property hname ?_ ?_ <;> intro hentry <;> simp [hentry, Json.text?] at hkind

theorem memberOf?_eq_none {entry : Json} (h : ∀ name, entry.member "name" ≠ .string name) :
    memberOf? entry = none := by
  rw [memberOf?, Option.map_eq_none_iff]
  exact Option.eq_none_iff_forall_ne_some.2 fun name heq => h name (text?_eq_some_iff.1 heq)

theorem lists_filterMap (entries : List Json) : Lists entries (entries.filterMap memberOf?) := by
  induction entries with
  | nil => exact .nil
  | cons entry entries ih =>
      by_cases hname : ∃ name, entry.member "name" = .string name
      · obtain ⟨name, hname⟩ := hname
        obtain ⟨member, hmember, habout⟩ := isAbout_of_name hname
        rw [List.filterMap_cons_some hmember]
        exact .named habout ih
      · have hnone := not_exists.1 hname
        rw [List.filterMap_cons_none (memberOf?_eq_none hnone)]
        exact .unnamed hnone ih

theorem yields_map (result : Except ServiceError Json) : Yields result (result.map membersOf) := by
  cases result with
  | error problem => exact .failed
  | ok body =>
      rw [Except.map, membersOf]
      cases hitems : (body.member "entries").items? with
      | some entries => exact .listed (items?_eq_some_iff.1 hitems) (lists_filterMap entries)
      | none =>
          refine .nothing fun entries heq => ?_
          cases hitems.symm.trans (items?_eq_some_iff.2 heq)

theorem panics_map (result : Except ServiceError Json) : panics (result.map membersOf) = panics result := by
  cases result <;> rfl

theorem perform_callsFor (service : Service) (type : String) (calls : List Call) : ∃ result next,
    service.members type = (result.map membersOf, next) ∧
      service.perform (callsFor type ++ calls) =
        if panics result then ([result], next)
        else (result :: (next.perform calls).1, (next.perform calls).2) := by
  simp only [members, callsFor, List.cons_append, List.nil_append, perform]
  generalize (service.send _ _).request _ _ = answer
  obtain ⟨result, asked⟩ := answer
  refine ⟨result, _, rfl, ?_⟩
  dsimp only
  split <;> rfl

theorem queries_spec (service : Service) (types : List String) :
    List.Forall₂ Yields (service.perform (types.flatMap callsFor)).1 (service.queries types).1 ∧
      (service.queries types).2 = (service.perform (types.flatMap callsFor)).2 := by
  induction types generalizing service with
  | nil => exact ⟨.nil, rfl⟩
  | cons type types ih =>
      obtain ⟨result, next, hmembers, hperform⟩ := perform_callsFor service type (types.flatMap callsFor)
      obtain ⟨hyields, hservice⟩ := ih next
      simp only [List.flatMap_cons, hperform, queries, hmembers, panics_map]
      split
      · exact ⟨.cons (yields_map result) .nil, rfl⟩
      · exact ⟨.cons (yields_map result) hyields, hservice⟩

def hearing (service : Service) (messages : List Framed) : Service :=
  { service with stream := messages.flatMap Framed.bytes }

theorem hears_hearing (service : Service) (messages : List Framed) :
    (service.hearing messages).Hears messages :=
  ⟨[], .nil none, rfl⟩

def concerns (number : Nat) (calls : List Call) (message : Framed) : Bool :=
  decide (∃ n ∈ awaitedNumbers number calls, IsAnswer n message.value)

structure Correlates (service : Service) (messages : List Framed) : Prop where
  sent : ∀ calls, ∃ made, made <+: calls ∧
    (service.perform calls).2.sent =
      ((numbered service.sequence made).map fun (number, call) => call.line number).reverse ++
        service.sent ∧
    ((∀ result ∈ (service.perform calls).1, panics result = false) → made = calls)
  goesOn : ∀ calls, ∀ result ∈ ((service.hearing messages).perform calls).1, panics result = false
  ascending : ∀ calls,
    (service.sequence :: (numbered service.sequence calls).map Prod.fst).Pairwise (· < ·)
  inWords : ∀ calls, service.sequence + calls.length < UInt64.size →
    ∀ entry ∈ numbered service.sequence calls, entry.1 < UInt64.size
  answered : ∀ calls, ∃ rest,
    Conversation service.sequence messages calls ((service.hearing messages).perform calls).1 rest ∧
      ((service.hearing messages).perform calls).2.Hears rest
  determined : ∀ calls results rest, Conversation service.sequence messages calls results rest →
    results = ((service.hearing messages).perform calls).1
  undisturbed : ∀ calls others,
    others.filter (concerns service.sequence calls) =
        messages.filter (concerns service.sequence calls) →
      ((service.hearing others).perform calls).1 = ((service.hearing messages).perform calls).1
  asked : ∀ types,
    (service.queries types).2 = (service.perform (types.flatMap callsFor)).2
  listed : ∀ types,
    List.Forall₂ Yields (service.perform (types.flatMap callsFor)).1 (service.queries types).1

theorem conversation_concerns (service : Service) (messages : List Framed) (calls : List Call) :
    ∃ rest, Conversation service.sequence (messages.filter (concerns service.sequence calls)) calls
      ((service.hearing messages).perform calls).1 rest := by
  obtain ⟨rest, hconversation, -⟩ := (hears_hearing service messages).perform calls
  exact ⟨_, hconversation.filter fun n hn message hanswer => decide_eq_true ⟨n, hn, hanswer⟩⟩

theorem requests_correlated (service : Service) (messages : List Framed) :
    Correlates service messages where
  sent := sent_perform service
  goesOn := by
    intro calls
    obtain ⟨rest, hconversation, -⟩ := (hears_hearing service messages).perform calls
    exact hconversation.goesOn
  ascending := pairwise_numbered service.sequence
  inWords := by
    intro calls hsize entry hentry
    have hlt := lt_of_mem_numbered hentry
    omega
  answered := (hears_hearing service messages).perform
  determined := by
    intro calls results rest hconversation
    obtain ⟨rest', hconversation', -⟩ := (hears_hearing service messages).perform calls
    exact (hconversation.unique hconversation').1
  undisturbed := by
    intro calls others heq
    obtain ⟨rest, hconversation⟩ := conversation_concerns service others calls
    obtain ⟨rest', hconversation'⟩ := conversation_concerns service messages calls
    exact ((heq ▸ hconversation).unique hconversation').1
  asked := fun types => (queries_spec service types).2
  listed := fun types => (queries_spec service types).1

end HtmlIds.Service
