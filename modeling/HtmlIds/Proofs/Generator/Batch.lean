import HtmlIds.Generator.Basic
import HtmlIds.Proofs.Dom.Artifact

namespace HtmlIds.Generation

open OrderedMap

variable {σ : Type}

abbrev Query := String × Except String (List Member)

inductive Asked (ask : MemberService σ) : σ → List Query → σ → Prop
  | done {service : σ} : Asked ask service [] service
  | next {service between last : σ} {type : String} {answer : Except String (List Member)}
      {later : List Query} : ask service type = (answer, between) → Asked ask between later last →
        Asked ask service ((type, answer) :: later) last

def recorded (ask : MemberService σ) : MemberService (σ × List Query) := fun (service, record) type =>
  let (answer, next) := ask service type
  (answer, next, record ++ [(type, answer)])

def IsLastAnswer (queries : List Query) (type : String) (answer : Except String (List Member)) : Prop :=
  ∃ earlier later, queries = earlier ++ (type, answer) :: later ∧ type ∉ later.map Prod.fst

structure BatchAnswered (ask : MemberService σ) (service : σ) (types : List String)
    (queries : List Query) : Prop where
  inOrder : queries.map Prod.fst = types
  asked : Asked ask service queries (run ask service types).service
  record : (run (recorded ask) (service, []) types).service = ((run ask service types).service, queries)
  listed : ∀ type, (run ask service types).database.contains type = true ↔ type ∈ types
  answered : ∀ type members, IsLastAnswer queries type (.ok members) →
    (run ask service types).database.members type = members
  failed : ∀ type problem, IsLastAnswer queries type (.error problem) →
    (run ask service types).database.members type = []
  settled : ∀ type ∈ types, ∃ answer, IsLastAnswer queries type answer
  reloads : Artifact.read (Artifact.write (run ask service types).database) =
    .ok (run ask service types).database

variable {ask : MemberService σ} {service last : σ} {types : List String} {queries : List Query}

def given (answer : Except String (List Member)) : List Member :=
  answer.toOption.getD []

theorem step_eq {generation : Generation σ} {type : String} {answer : Except String (List Member)}
    {next : σ} (h : ask generation.service type = (answer, next)) :
    (step ask generation type).service = next ∧
      (step ask generation type).database = generation.database.insert type (given answer) := by
  simp only [step, h]
  exact ⟨trivial, rfl⟩

theorem exists_asked (ask : MemberService σ) (service : σ) (types : List String) :
    ∃ queries last, queries.map Prod.fst = types ∧ Asked ask service queries last := by
  induction types generalizing service with
  | nil => exact ⟨[], service, rfl, .done⟩
  | cons type types ih =>
      obtain ⟨later, last, rfl, hlater⟩ := ih (ask service type).2
      exact ⟨(type, (ask service type).1) :: later, last, rfl, .next rfl hlater⟩

theorem Asked.foldl_step (h : Asked ask service queries last) {generation : Generation σ}
    (hservice : generation.service = service) :
    ((queries.map Prod.fst).foldl (step ask) generation).service = last ∧
      ((queries.map Prod.fst).foldl (step ask) generation).database =
        (queries.map fun query => (query.1, given query.2)).foldl
          (fun database entry => database.insert entry.1 entry.2) generation.database := by
  induction h generalizing generation with
  | done => exact ⟨hservice, rfl⟩
  | next hanswer _ ih =>
      obtain ⟨hnext, hdatabase⟩ := step_eq (hservice ▸ hanswer)
      obtain ⟨hlast, hrest⟩ := ih hnext
      rw [hdatabase] at hrest
      exact ⟨hlast, hrest⟩

theorem Asked.recorded (h : Asked ask service queries last) (record : List Query) :
    Asked (Generation.recorded ask) (service, record) queries (last, record ++ queries) := by
  induction h generalizing record with
  | done =>
      rw [List.append_nil]
      exact .done
  | @next service between last type answer later hanswer _ ih =>
      have hnext : Generation.recorded ask (service, record) type =
          (answer, between, record ++ [(type, answer)]) := by
        simp only [Generation.recorded, hanswer]
      have hlater := ih (record ++ [(type, answer)])
      rw [List.append_assoc, List.singleton_append] at hlater
      exact .next hnext hlater

theorem Asked.service_run (h : Asked ask service queries last) :
    (run ask service (queries.map Prod.fst)).service = last :=
  (h.foldl_step rfl).1

theorem Asked.find?_run (h : Asked ask service queries last) (type : String) :
    (run ask service (queries.map Prod.fst)).database.find? type =
      (valuesOf type queries).getLast?.map given := by
  have hdatabase : (run ask service (queries.map Prod.fst)).database =
      ofList (queries.map fun query => (query.1, given query.2)) := (h.foldl_step rfl).2
  rw [hdatabase, find?_ofList, valuesOf_map_snd, List.getLast?_map]

theorem Asked.members_run (h : Asked ask service queries last) {type : String}
    {answer : Except String (List Member)} (hanswer : IsLastAnswer queries type answer) :
    (run ask service (queries.map Prod.fst)).database.members type = given answer := by
  rw [Database.members, h.find?_run, getLast?_valuesOf_iff.2 hanswer]
  rfl

theorem exists_isLastAnswer {type : String} (h : type ∈ queries.map Prod.fst) :
    ∃ answer, IsLastAnswer queries type answer := by
  have hne : valuesOf type queries ≠ [] := fun hnil => valuesOf_eq_nil_iff.1 hnil h
  exact ⟨_, getLast?_valuesOf_iff.1 (List.getLast?_eq_some_getLast hne)⟩

theorem batch_answered (ask : MemberService σ) (service : σ) (types : List String) :
    ∃ queries, BatchAnswered ask service types queries := by
  obtain ⟨queries, last, rfl, hasked⟩ := exists_asked ask service types
  have hlast := hasked.service_run
  refine ⟨queries, {
    inOrder := rfl
    asked := hlast.symm ▸ hasked
    record := ?_
    listed := fun type => ?_
    answered := fun type members hanswer => hasked.members_run hanswer
    failed := fun type problem hanswer => hasked.members_run hanswer
    settled := fun type htype => exists_isLastAnswer htype
    reloads := Artifact.read_write_eq_ok _ }⟩
  · rw [hlast]
    exact (hasked.recorded []).service_run
  · rw [contains_iff]
    simp only [hasked.find?_run, Option.map_eq_some_iff]
    constructor
    · rintro ⟨_, answer, hanswer, -⟩
      by_contra hnot
      rw [valuesOf_eq_nil_iff.2 hnot] at hanswer
      cases hanswer
    · intro htype
      obtain ⟨answer, hanswer⟩ := exists_isLastAnswer htype
      exact ⟨_, answer, getLast?_valuesOf_iff.2 hanswer, rfl⟩

end HtmlIds.Generation

namespace HtmlIds.Generator

theorem foldl_advance_of_isPanicked {generation : Generation Source}
    (h : generation.service.isPanicked = true) (types : List String) :
    types.foldl advance generation = generation := by
  induction types with
  | nil => rfl
  | cons type types ih =>
      have hadvance : advance generation type = generation := by rw [advance, if_pos h]
      rw [List.foldl_cons, hadvance, ih]

theorem advance_cases (generation : Generation Source) (type : String) :
    (advance generation type).service.isPanicked = true ∨
      advance generation type = Generation.step Source.ask generation type := by
  rw [advance]
  split
  · next hpanicked => exact .inl hpanicked
  · dsimp only
    split
    · next hpanicked => exact .inl hpanicked
    · exact .inr rfl

theorem foldl_advance_eq {generation : Generation Source} {types : List String}
    (h : (types.foldl advance generation).service.isPanicked = false) :
    types.foldl advance generation = types.foldl (Generation.step Source.ask) generation := by
  induction types generalizing generation with
  | nil => rfl
  | cons type types ih =>
      rw [List.foldl_cons] at h ⊢
      rcases advance_cases generation type with hpanicked | hstep
      · rw [foldl_advance_of_isPanicked hpanicked] at h
        cases hpanicked.symm.trans h
      · rw [List.foldl_cons, ← hstep]
        exact ih h

theorem foldl_advance_eq_run {source : Source} {types : List String}
    (h : (types.foldl advance { service := source }).service.isPanicked = false) :
    types.foldl advance { service := source } = Generation.run Source.ask source types :=
  foldl_advance_eq h

end HtmlIds.Generator
