import HtmlIds.Proofs.Json.RoundTrip
import HtmlIds.Proofs.Json.Soundness
import HtmlIds.Proofs.Text.Run

namespace HtmlIds

namespace Reading

def Interrupted (frames : List Frame) (s : State) : Prop :=
  ∃ inner : Option Reading, (∀ value ∈ inner, value.skipFlaw? = some .truncated) ∧
    s.finish = ⟨close (.both .truncated) frames inner, none⟩

def Frame.skipFlaw? : Frame → Option Flaw
  | .array items => skipItems? items.reverse
  | .object members _ => skipMembers? members.reverse

variable {s : State} {frame : Frame} {frames : List Frame} {part : List Char}

theorem Interrupted.outer (h : Interrupted (frame :: frames) s) (hframe : frame.skipFlaw? = none) :
    Interrupted frames s := by
  obtain ⟨inner, hinner, hfinish⟩ := h
  -- to the containers further out, the one that is left open is a value that breaks off
  cases frame with
  | array items =>
      refine ⟨some _, ?_, hfinish⟩
      rintro value ⟨⟩
      rw [Frame.skipFlaw?] at hframe
      cases inner with
      | none => simp [skipFlaw?, hframe, Stop.both]
      | some value =>
          simp [skipFlaw?, skipItems?_append, hframe, skipItems?, hinner value rfl]
  | object members key =>
      refine ⟨some _, ?_, hfinish⟩
      rintro value ⟨⟩
      rw [Frame.skipFlaw?] at hframe
      cases key with
      | none => simp [skipFlaw?, hframe, Stop.both]
      | some key =>
          cases inner with
          | none => simp [skipFlaw?, skipMembers?_append, hframe, skipMembers?, Stop.both]
          | some value =>
              simp [skipFlaw?, skipMembers?_append, hframe, skipMembers?, hinner value rfl]

theorem interrupted_of_stop? (hmode : ∀ part written, s.mode = .number part written → part.isWhole = false)
    (hresult : s.result = none) (hstop : s.stop? = some (.both .truncated)) :
    Interrupted s.nested s := by
  refine ⟨if s.atValue then some (.stopped (.both .truncated)) else none, fun value hvalue => ?_, ?_⟩
  · split at hvalue
    · obtain rfl := Option.some.inj hvalue
      rfl
    · cases hvalue
  · rw [State.finish_of_result_none hmode hresult, hstop]
    rfl

theorem Ready.interrupted (h : Ready s) (hresult : s.result = none) : Interrupted s.nested s := by
  apply interrupted_of_stop? _ hresult
  · rcases h.mode with hmode | hmode <;> rw [State.stop?, hmode]
  · intro part written heq
    rcases h.mode with hmode | hmode <;> cases hmode.symm.trans heq

theorem interrupted_of_settles (h : Ready s) (hresult : s.result = none)
    (hnested : s.nested = frame :: frames) (hframe : frame.skipFlaw? = none) {value : Reading}
    (hvalue : value.skipFlaw? = none) {t : State} (ht : Settles t (s.complete value)) :
    Interrupted frames t := by
  have hopen (frame : Frame) (hcomplete : s.complete value =
      { s with nested := frame :: frames, mode := .after }) (hframe : frame.skipFlaw? = none) :
      Interrupted frames t := by
    obtain ⟨inner, hinner, hfinish⟩ := interrupted_of_stop?
      (s := { s with nested := frame :: frames, mode := .after }) (by rintro _ _ ⟨⟩) hresult rfl
    refine Interrupted.outer ⟨inner, hinner, ?_⟩ hframe
    rw [ht.finish, hcomplete, hfinish]
  cases frame with
  | array items =>
      refine hopen _ (complete_array hnested value) ?_
      rw [Frame.skipFlaw?] at hframe ⊢
      simp [skipItems?_append, hframe, skipItems?, hvalue]
  | object members key =>
      cases key with
      | none => exact absurd hnested (h.keyed members frames)
      | some key =>
          refine hopen (.object ((key, value) :: members) none) ?_ ?_
          · rw [State.complete, hnested]
          · rw [Frame.skipFlaw?] at hframe ⊢
            simp [skipMembers?_append, hframe, skipMembers?, hvalue]

section Strings

variable (s : State) (isKey : Bool) (quoted : Quoted)

theorem isSome_hexNumber?_of_append {digits more : List Char}
    (h : (hexNumber? (digits ++ more)).isSome = true) : (hexNumber? digits).isSome = true := by
  induction more using List.reverseRecOn with
  | nil => simpa using h
  | append_singleton more c ih =>
      rw [← List.append_assoc, hexNumber?_concat] at h
      apply ih
      cases hfront : hexNumber? (digits ++ more) with
      | none => simp [hfront] at h
      | some high => rfl

theorem foldl_piece_cut {piece : Piece} {text : List Char} (h : piece.Spelled text)
    (hpart : part <+: text) : part = text ∨ ∃ escape,
      part.foldl State.step (s.quoting isKey quoted) = { s with mode := .string isKey quoted escape } := by
  cases h with
  | plain =>
      rcases List.prefix_cons_iff.1 hpart with rfl | ⟨inside, rfl, hinside⟩
      · exact .inr ⟨.none, rfl⟩
      · exact .inl (by rw [List.prefix_nil.1 hinside])
  | escaped =>
      rcases List.prefix_cons_iff.1 hpart with rfl | ⟨inside, rfl, hinside⟩
      · exact .inr ⟨.none, rfl⟩
      rcases List.prefix_cons_iff.1 hinside with rfl | ⟨after, rfl, hafter⟩
      · exact .inr ⟨.backslash, rfl⟩
      · exact .inl (by rw [List.prefix_nil.1 hafter])
  | @hex digits unit hlen hunit =>
      rcases List.prefix_cons_iff.1 hpart with rfl | ⟨inside, rfl, hinside⟩
      · exact .inr ⟨.none, rfl⟩
      rcases List.prefix_cons_iff.1 hinside with rfl | ⟨first, rfl, more, rfl⟩
      · exact .inr ⟨.backslash, rfl⟩
      by_cases hmore : more = []
      · exact .inl (by rw [hmore, List.append_nil])
      · have hlength : first.length < 4 := by
          have hpos := List.length_pos_iff.2 hmore
          rw [List.length_append] at hlen
          omega
        have hsome := isSome_hexNumber?_of_append (Option.isSome_of_eq_some hunit)
        exact .inr ⟨_, foldl_hexDigits s isKey quoted hlength hsome⟩

theorem foldl_pieces_cut {pieces : List Piece} {body : List Char} (h : PiecesSpelled pieces body)
    (hpart : part <+: body) : ∃ first rest escape, pieces = first ++ rest ∧
      part.foldl State.step (s.quoting isKey {}) =
        { s with mode := .string isKey (.ofPieces first) escape } := by
  induction h with
  | nil =>
      obtain rfl := List.prefix_nil.1 hpart
      exact ⟨[], [], .none, rfl, rfl⟩
  | @concat pieces body piece text hpieces hpiece ih =>
      rcases prefix_append_cases hpart with hbody | ⟨rest, rfl, hrest⟩
      · obtain ⟨first, rest, escape, rfl, hfold⟩ := ih hbody
        exact ⟨first, rest ++ [piece], escape, List.append_assoc .., hfold⟩
      · rw [List.foldl_append, foldl_pieces s isKey hpieces]
        rcases foldl_piece_cut s isKey (.ofPieces pieces) hpiece hrest with rfl | ⟨escape, hfold⟩
        · rw [foldl_piece s isKey _ hpiece, ← Quoted.ofPieces_concat]
          exact ⟨pieces ++ [piece], [], .none, (List.append_nil _).symm, rfl⟩
        · exact ⟨pieces, [piece], escape, rfl, hfold⟩

theorem sound_ofPieces {first rest : List Piece} (h : (textOf? none (first ++ rest)).isSome = true) :
    (Quoted.ofPieces first).sound = true := by
  rw [← Quoted.text?_ofPieces, Quoted.ofPieces, List.foldl_append, Quoted.text?_foldl_take] at h
  split at h
  · next hsound => exact hsound
  · cases h

end Strings

theorem interrupted_writeString {isKey : Bool} (hbefore : Interrupted s.nested s)
    (hresult : s.result = none) (hopen : s.step '"' = s.quoting isKey {}) {text : String}
    (hpart : part <+: Json.writeString text) (hne : part ≠ Json.writeString text) :
    Interrupted s.nested (part.foldl State.step s) := by
  obtain ⟨pieces, body, hpieces, hname, heq⟩ := exists_pieces_writeString text
  rw [heq] at hpart hne
  rcases List.prefix_cons_iff.1 hpart with rfl | ⟨inside, rfl, hinside⟩
  · exact hbefore
  rcases List.prefix_concat_iff.1 hinside with rfl | hinside
  · exact absurd rfl hne
  obtain ⟨first, rest, escape, rfl, hfold⟩ := foldl_pieces_cut s isKey hpieces hinside
  have hsound : (Quoted.ofPieces first).sound = true := by
    obtain ⟨chars, hchars, -⟩ := Option.map_eq_some_iff.1 hname
    exact sound_ofPieces (Option.isSome_of_eq_some hchars)
  rw [List.foldl_cons, hopen, hfold]
  refine interrupted_of_stop? (s := { s with mode := .string isKey (.ofPieces first) escape })
    (by rintro _ _ ⟨⟩) hresult ?_
  simp only [State.stop?, hsound, if_true]

end Reading

open Reading

def Json.BreaksOff (value : Json) : Prop :=
  ∀ s : State, Ready s → s.result = none → ∀ part, part <+: value.write → part ≠ value.write →
    Interrupted s.nested (part.foldl State.step s)

structure Json.Breakable (value : Json) : Prop where
  exact : value.IsExact
  interrupted : ∀ {s : State} {frame frames}, Ready s → s.result = none → s.nested = frame :: frames →
    frame.skipFlaw? = none → ∀ {part}, part <+: value.write →
      Interrupted frames (part.foldl State.step s)

namespace Json

theorem BreaksOff.breakable {value : Json} (h : value.BreaksOff) (hexact : value.IsExact) :
    value.Breakable := by
  refine ⟨hexact, fun {s frame frames} hready hresult hnested hframe {part} hpart => ?_⟩
  by_cases heq : part = value.write
  · subst heq
    exact interrupted_of_settles hready hresult hnested hframe (skipFlaw?_ofJson value)
      ((spelled_write value hexact).settles hready)
  · have hinner := h s hready hresult part hpart heq
    rw [hnested] at hinner
    exact hinner.outer hframe

theorem breaksOff_string (text : String) : (Json.string text).BreaksOff := by
  intro s hready hresult part hpart hne
  exact interrupted_writeString (hready.interrupted hresult) hresult
    (hready.step rfl (by decide)) hpart hne

theorem isInteger_of_prefix_toDigits {n : Nat} {part : List Char} (h : part <+: Nat.toDigits 10 n)
    (hne : part ≠ []) : IsInteger part := by
  obtain ⟨c, rest, heq, hc, hrest, -, hzero⟩ := JsonNumber.exists_toDigits n
  rw [heq] at h
  obtain rfl | ⟨digits, rfl, hdigits⟩ := List.prefix_cons_iff.1 h
  · exact absurd rfl hne
  refine ⟨[], c :: digits, .inl rfl, ?_, rfl⟩
  by_cases hc0 : c = '0'
  · rw [hzero hc0] at hdigits
    exact .inl (by rw [hc0, List.prefix_nil.1 hdigits])
  · exact .inr ⟨⟨List.cons_ne_nil c digits, List.forall_mem_cons.2
      ⟨hc, fun d hd => hrest d (hdigits.subset hd)⟩⟩, fun e => hc0 (Option.some.inj e)⟩

theorem breakable_nat {n : Nat} (h : n < 0x10000000000000000) : (Json.nat n).Breakable := by
  refine ⟨⟨by omega, by omega⟩, fun {s frame frames} hready hresult hnested hframe {part} hpart => ?_⟩
  by_cases hne : part = []
  · subst hne
    have hinner := hready.interrupted hresult
    rw [hnested] at hinner
    exact hinner.outer hframe
  · have hdigits : part <+: Nat.toDigits 10 n := JsonNumber.writeNumber_ofNat n ▸ hpart
    have hnumber := (isInteger_of_prefix_toDigits hdigits hne).isDecimal.isNumber
    refine interrupted_of_settles hready hresult hnested hframe ?_ (settles_isNumber hready hnumber)
    unfold ofNumber
    split <;> rfl

theorem interrupted_items {items : List Json} (hitems : ∀ item ∈ items, item.Breakable) {s : State}
    {done : List Reading} {frames : List Reading.Frame} (hmode : s.mode = .value ∨ s.mode = .itemOrEnd)
    (hresult : s.result = none) (hnested : s.nested = .array done :: frames)
    (hdone : skipItems? done.reverse = none) {part : List Char} (hpart : part <+: writeItems items) :
    Interrupted frames (part.foldl State.step s) := by
  induction items generalizing s done part with
  | nil =>
      obtain rfl := List.prefix_nil.1 hpart
      have hinner := (ready_array hmode hnested).interrupted hresult
      rw [hnested] at hinner
      exact hinner.outer hdone
  | cons item rest ih =>
      obtain ⟨hitem, hrest⟩ := List.forall_mem_cons.1 hitems
      have hready := ready_array hmode hnested
      cases rest with
      | nil => exact hitem.interrupted hready hresult hnested hdone hpart
      | cons next rest =>
          rcases prefix_append_cases hpart with hwithin | ⟨after, rfl, hafter⟩
          · exact hitem.interrupted hready hresult hnested hdone hwithin
          rcases List.prefix_cons_iff.1 hafter with rfl | ⟨more, rfl, hmore⟩
          · rw [List.append_nil]
            exact hitem.interrupted hready hresult hnested hdone (List.prefix_refl _)
          · have hsettles := (spelled_write item hitem.exact).settles hready
            rw [complete_array hnested] at hsettles
            rw [List.foldl_append, List.foldl_cons, hsettles.step _ isDelimiter_comma]
            refine ih hrest (s := { s with nested := _, mode := .value }) (.inl rfl) hresult rfl ?_ hmore
            simp [skipItems?_append, hdone, skipItems?, skipFlaw?_ofJson]

theorem breaksOff_array {items : List Json} (hitems : ∀ item ∈ items, item.Breakable) :
    (Json.array items).BreaksOff := by
  intro s hready hresult part hpart hne
  rcases List.prefix_cons_iff.1 hpart with rfl | ⟨inside, rfl, hinside⟩
  · exact hready.interrupted hresult
  rcases List.prefix_concat_iff.1 hinside with rfl | hinside
  · exact absurd rfl hne
  rw [List.foldl_cons, hready.step_open]
  exact interrupted_items hitems (s := { s with nested := .array [] :: s.nested, mode := .itemOrEnd })
    (.inr rfl) hresult rfl rfl hinside

section Members

variable {s : State} {done : List (Option String × Reading)} {frames : List Reading.Frame}
  (hmode : s.mode = .key ∨ s.mode = .keyOrEnd) (hresult : s.result = none)
  (hnested : s.nested = .object done none :: frames)
  (hdone : skipMembers? done.reverse = none)

include hmode hresult

theorem interrupted_beforeKey : Interrupted s.nested s := by
  apply interrupted_of_stop? _ hresult
  · rcases hmode with hmode | hmode <;> rw [State.stop?, hmode]
  · intro part written heq
    rcases hmode with hmode | hmode <;> cases hmode.symm.trans heq

include hnested hdone

theorem interrupted_member {key : String} {value : Json} (hvalue : value.Breakable)
    {part : List Char} (hpart : part <+: writeString key ++ ':' :: value.write) :
    Interrupted frames (part.foldl State.step s) := by
  have hopen : s.step '"' = s.quoting true {} := by
    have hquote : isSpace '"' = false := rfl
    rcases hmode with hmode | hmode <;> simp [State.step, State.quoting, hmode, hquote]
  have hkey := keySpelled_writeString key
  have hnamed : Interrupted frames ((writeString key).foldl State.step s) := by
    rw [foldl_name hmode hnested hkey]
    exact (interrupted_of_stop? (s := { s with nested := _, mode := .colon }) (by rintro _ _ ⟨⟩)
      hresult rfl).outer hdone
  -- the text breaks off within the key, before the colon, or where the value stands
  rcases prefix_append_cases hpart with hwithin | ⟨after, rfl, hafter⟩
  · by_cases heq : part = writeString key
    · exact heq ▸ hnamed
    · have hinner := interrupted_writeString (interrupted_beforeKey hmode hresult) hresult hopen
        hwithin heq
      rw [hnested] at hinner
      exact hinner.outer hdone
  rcases List.prefix_cons_iff.1 hafter with rfl | ⟨inside, rfl, hinside⟩
  · rwa [List.append_nil]
  · rw [List.append_cons, List.foldl_append, foldl_key hmode hnested hkey]
    exact hvalue.interrupted (ready_keyed s done (some key) frames) hresult rfl hdone hinside

end Members

theorem interrupted_members {members : List (String × Json)}
    (hmembers : ∀ entry ∈ members, entry.2.Breakable) {s : State}
    {done : List (Option String × Reading)} {frames : List Reading.Frame}
    (hmode : s.mode = .key ∨ s.mode = .keyOrEnd) (hresult : s.result = none)
    (hnested : s.nested = .object done none :: frames) (hdone : skipMembers? done.reverse = none)
    {part : List Char} (hpart : part <+: writeMembers members) :
    Interrupted frames (part.foldl State.step s) := by
  induction members generalizing s done part with
  | nil =>
      obtain rfl := List.prefix_nil.1 hpart
      have hinner := interrupted_beforeKey hmode hresult
      rw [hnested] at hinner
      exact hinner.outer hdone
  | cons entry rest ih =>
      obtain ⟨key, value⟩ := entry
      obtain ⟨hvalue, hrest⟩ := List.forall_mem_cons.1 hmembers
      cases rest with
      | nil => exact interrupted_member hmode hresult hnested hdone hvalue hpart
      | cons next rest =>
          rcases prefix_append_cases hpart with hwithin | ⟨after, rfl, hafter⟩
          · exact interrupted_member hmode hresult hnested hdone hvalue hwithin
          rcases List.prefix_cons_iff.1 hafter with rfl | ⟨more, rfl, hmore⟩
          · rw [List.append_nil]
            exact interrupted_member hmode hresult hnested hdone hvalue (List.prefix_refl _)
          · let next : State :=
              { s with nested := .object ((some key, ofJson value) :: done) none :: frames, mode := .key }
            have hcomma : ((writeString key ++ ':' :: value.write).foldl State.step s).step ',' = next := by
              rw [List.append_cons, List.foldl_append,
                foldl_key hmode hnested (keySpelled_writeString key)]
              exact ((spelled_write value hvalue.exact).settles
                (ready_keyed s done (some key) frames)).step _ isDelimiter_comma
            rw [List.foldl_append, List.foldl_cons, hcomma]
            refine ih hrest (s := next) (.inl rfl) hresult rfl ?_ hmore
            simp [skipMembers?_append, hdone, skipMembers?, skipFlaw?_ofJson]

theorem breaksOff_object {members : List (String × Json)}
    (hmembers : ∀ entry ∈ members, entry.2.Breakable) : (Json.object members).BreaksOff := by
  intro s hready hresult part hpart hne
  rcases List.prefix_cons_iff.1 hpart with rfl | ⟨inside, rfl, hinside⟩
  · exact hready.interrupted hresult
  rcases List.prefix_concat_iff.1 hinside with rfl | hinside
  · exact absurd rfl hne
  rw [List.foldl_cons, hready.step_openObject]
  exact interrupted_members hmembers
    (s := { s with nested := .object [] none :: s.nested, mode := .keyOrEnd })
    (.inr rfl) hresult rfl rfl hinside

end Json

end HtmlIds
