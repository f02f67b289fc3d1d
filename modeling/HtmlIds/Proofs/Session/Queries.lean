import HtmlIds.Proofs.Session.Interference

namespace HtmlIds.Session

def Event.IsQuery : Event → Prop
  | .completions _ _ | .hover _ _ | .definition _ _ => True
  | .activate _ | .opened _ _ _ _ | .changed _ _ _ | .focused _ | .closed _ => False

def LeavesOutQueries (edits : List Edit) : Prop :=
  ∀ edit ∈ edits, edit.2 = some edit.1 ∨ edit.2 = none ∧ edit.1.IsQuery

variable {session other : Session}

theorem Agree.query {ignored : Uri → Prop} (h : Agree ignored session other) {event : Event}
    (hquery : event.IsQuery) : Agree ignored (session.step event).2 other := by
  cases event with
  | completions uri position => exact (h.completions uri position).2
  | hover uri position => exact h
  | definition uri position => exact h
  | activate | opened | changed | focused | closed => exact hquery.elim

theorem Agree.run_thinned (h : Agree (fun _ => False) session other) {edits : List Edit}
    (hedits : LeavesOutQueries edits) :
    (other.run (thinned edits)).1 = remaining edits (session.run (original edits)).1 ∧
      Agree (fun _ => False) (session.run (original edits)).2 (other.run (thinned edits)).2 := by
  induction edits generalizing session other with
  | nil => exact ⟨rfl, h⟩
  | cons edit edits ih =>
      obtain ⟨event, stand⟩ := edit
      obtain ⟨hedit, hrest⟩ := List.forall_mem_cons.1 hedits
      rcases hedit with hkept | ⟨hleft, hquery⟩
      · obtain rfl : stand = some event := hkept
        obtain ⟨hanswer, hstep⟩ := h.step event fun _ _ _ _ => id
        obtain ⟨hanswers, hafter⟩ := ih hstep hrest
        exact ⟨congrArg₂ List.cons hanswer.symm hanswers, hafter⟩
      · obtain rfl : stand = none := hleft
        exact ih (h.query hquery) hrest

theorem queries_traceless (database : Database) :
    (∀ types, MemberCache.SharesMembers database types) ∧
    ∀ rule edits, LeavesOutQueries edits →
      ((start database rule).run (thinned edits)).1 =
        remaining edits ((start database rule).run (original edits)).1 := by
  refine ⟨MemberCache.sharesMembers database, fun rule edits hedits => ?_⟩
  exact ((agree_start (fun _ => False) database rule).run_thinned hedits).1

theorem queries_traceless_last :
    let page := "file:///a.html"
    let text := "<input id='box'><script>box.</script>"
    let asked : Event := .completions page ⟨0, 28⟩
    let database := OrderedMap.ofList [("HTMLInputElement", [⟨"focus", .method⟩])]
    let edits : List Edit :=
      [(.activate none, some (.activate none)), (asked, none),
        (.opened page "html" 1 text, some (.opened page "html" 1 text)), (asked, none),
        (.hover page ⟨0, 25⟩, none), (asked, some asked)]
    LeavesOutQueries edits ∧
      ((start database .warn).run (thinned edits)).1 =
        remaining edits ((start database .warn).run (original edits)).1 := by
  intro page text asked database edits
  have hedits : LeavesOutQueries edits := by
    simp [LeavesOutQueries, edits, asked, Event.IsQuery]
  exact ⟨hedits, (queries_traceless database).2 .warn edits hedits⟩

end HtmlIds.Session
