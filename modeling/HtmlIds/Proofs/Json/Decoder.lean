import HtmlIds.Proofs.Json.Soundness
import HtmlIds.Proofs.OrderedMap
import Mathlib.Data.List.Forall2

namespace HtmlIds.Reading

open OrderedMap

variable {ε α β σ : Type}

theorem map_eq_ok_iff {result : Except ε α} {f : α → β} {b : β} :
    result.map f = .ok b ↔ ∃ a, result = .ok a ∧ f a = b := by
  cases result <;> simp [Except.map]

theorem mapError_eq_ok_iff {result : Except ε α} {f : ε → β} {a : α} :
    result.mapError f = .ok a ↔ result = .ok a := by
  cases result <;> simp [Except.mapError]

theorem bind_eq_ok_iff {result : Except ε α} {f : α → Except ε β} {b : β} :
    (result >>= f) = .ok b ↔ ∃ a, result = .ok a ∧ f a = .ok b := by
  cases result <;> simp [bind, Except.bind]

theorem refuse_ne_ok (value : Reading) (a : α) : refuse (ε := ε) value ≠ .ok a := by
  cases value <;> simp [refuse]

theorem skip_eq_ok_iff {value : Reading} {done : Unit} :
    skip (ε := ε) value = .ok done ↔ value.skipFlaw? = none := by
  rw [skip]
  split <;> simp [*]

theorem asString_eq_ok_iff {value : Reading} {text : String} :
    asString (ε := ε) value = .ok text ↔ value = .string text := by
  cases value <;> simp [asString, refuse]

theorem asInteger_eq_ok_iff {low high n : Int} {value : Reading} :
    asInteger (ε := ε) low high value = .ok n ↔
      value = .number (.integer n) ∧ low ≤ n ∧ n < high := by
  constructor
  · intro h
    unfold asInteger at h
    split at h
    · next m =>
        split at h
        · next hm =>
            obtain rfl : m = n := Except.ok.inj h
            exact ⟨rfl, by simpa using hm⟩
        · cases h
    · exact absurd h (refuse_ne_ok _ _)
  · rintro ⟨rfl, hlow, hhigh⟩
    simp [asInteger, hlow, hhigh]

theorem atEnd_eq_ok_iff {a b : α} {stop : Option Stop} :
    atEnd (ε := ε) a stop = .ok b ↔ stop = none ∧ a = b := by
  cases stop <;> simp [atEnd]

theorem atLast_eq_ok_iff {a b : α} {items : List Reading} {stop : Option Stop} :
    atLast (ε := ε) a items stop = .ok b ↔ items = [] ∧ stop = none ∧ a = b := by
  cases items <;> simp [atLast, atEnd_eq_ok_iff]

theorem nextItem_eq_ok_iff {decode : Decoder ε α} {stop : Option Stop} {items rest : List Reading}
    {a : α} : nextItem decode (.error .shape) stop items = .ok (a, rest) ↔
      ∃ item, items = item :: rest ∧ decode item = .ok a := by
  cases items with
  | nil => cases stop <;> simp [nextItem, Except.map]
  | cons item more =>
      simp only [nextItem, map_eq_ok_iff, Prod.mk.injEq, List.cons.injEq]
      constructor
      · rintro ⟨_, hitem, rfl, rfl⟩
        exact ⟨item, ⟨rfl, rfl⟩, hitem⟩
      · rintro ⟨_, ⟨rfl, rfl⟩, hitem⟩
        exact ⟨a, hitem, rfl, rfl⟩

theorem nextItem_ok_eq_ok_iff {decode : Decoder ε α} {absent a : α} {stop : Option Stop}
    {items rest : List Reading} : nextItem decode (.ok absent) stop items = .ok (a, rest) ↔
      (items = [] ∧ rest = [] ∧ stop = none ∧ a = absent) ∨
        ∃ item, items = item :: rest ∧ decode item = .ok a := by
  cases items with
  | nil => cases stop <;> simp [nextItem, Except.map, eq_comm, and_comm]
  | cons item more =>
      simp only [nextItem, map_eq_ok_iff, Prod.mk.injEq, List.cons.injEq]
      constructor
      · rintro ⟨_, hitem, rfl, rfl⟩
        exact .inr ⟨item, ⟨rfl, rfl⟩, hitem⟩
      · rintro (⟨hnil, -⟩ | ⟨_, ⟨rfl, rfl⟩, hitem⟩)
        · cases hnil
        · exact ⟨a, hitem, rfl, rfl⟩

theorem asPair_eq_ok_iff {first : Decoder ε α} {second : Decoder ε β} {value : Reading} {a : α}
    {b : β} : asPair first second value = .ok (a, b) ↔
      ∃ x y, value = .array [x, y] none ∧ first x = .ok a ∧ second y = .ok b := by
  constructor
  · intro h
    unfold asPair at h
    split at h
    · next items stop =>
        split at h
        · cases h
        · next a' rest hfirst =>
            obtain ⟨x, rfl, hx⟩ := nextItem_eq_ok_iff.1 hfirst
            split at h
            · cases h
            · next b' rest' hsecond =>
                obtain ⟨y, rfl, hy⟩ := nextItem_eq_ok_iff.1 hsecond
                obtain ⟨rfl, rfl, heq⟩ := atLast_eq_ok_iff.1 h
                obtain ⟨rfl, rfl⟩ := Prod.mk.inj heq
                exact ⟨x, y, rfl, hx, hy⟩
    · exact absurd h (refuse_ne_ok _ _)
  · rintro ⟨x, y, rfl, hx, hy⟩
    simp [asPair, nextItem, hx, hy, Except.map, atLast, atEnd]

theorem mapM_eq_ok_iff {decode : Decoder ε α} {items : List Reading} {values : List α} :
    items.mapM decode = .ok values ↔
      List.Forall₂ (fun item value => decode item = .ok value) items values := by
  induction items generalizing values with
  | nil => cases values <;> simp [pure, Except.pure]
  | cons item rest ih =>
      rw [List.mapM_cons, bind_eq_ok_iff, List.forall₂_cons_left_iff]
      constructor
      · rintro ⟨first, hfirst, hrest⟩
        obtain ⟨others, hothers, heq⟩ := bind_eq_ok_iff.1 hrest
        exact ⟨first, others, hfirst, ih.1 hothers, (Except.ok.inj heq).symm⟩
      · rintro ⟨first, others, hfirst, hothers, rfl⟩
        exact ⟨first, hfirst, bind_eq_ok_iff.2 ⟨others, ih.2 hothers, rfl⟩⟩

theorem asList_eq_ok_iff {decode : Decoder ε α} {value : Reading} {values : List α} :
    asList decode value = .ok values ↔ ∃ items, value = .array items none ∧
      List.Forall₂ (fun item value => decode item = .ok value) items values := by
  constructor
  · intro h
    unfold asList at h
    split at h
    · next items stop =>
        split at h
        · cases h
        · next values' hitems =>
            obtain ⟨rfl, rfl⟩ := atEnd_eq_ok_iff.1 h
            exact ⟨items, rfl, mapM_eq_ok_iff.1 hitems⟩
    · exact absurd h (refuse_ne_ok _ _)
  · rintro ⟨items, rfl, hitems⟩
    simp only [asList, mapM_eq_ok_iff.2 hitems, atEnd]

def named (members : List (String × Reading)) : List (Option String × Reading) :=
  members.map fun member => (some member.1, member.2)

theorem named_injective : Function.Injective named :=
  List.map_injective_iff.2 fun a b h => by
    obtain ⟨hkey, hvalue⟩ := Prod.mk.inj h
    exact Prod.ext (Option.some.inj hkey) hvalue

theorem ofMembers_eq_named (members : List (String × Json)) :
    Reading.ofMembers members = named (members.map fun member => (member.1, ofJson member.2)) := by
  induction members with
  | nil => rfl
  | cons member rest ih =>
      rw [Reading.ofMembers, ih]
      rfl

theorem ofJson_eq_string_iff {value : Json} {text : String} :
    ofJson value = .string text ↔ value = .string text := by
  cases value <;> simp [ofJson]

theorem skipMembers?_eq_none_iff {members : List (Option String × Reading)} :
    skipMembers? members = none ↔ ∀ member ∈ members, member.2.skipFlaw? = none := by
  induction members with
  | nil => simp [skipMembers?]
  | cons member rest ih => simp [skipMembers?, ih]

theorem skipFlaw?_named {members : List (String × Reading)} :
    (Reading.object (named members) none).skipFlaw? = none ↔
      ∀ member ∈ members, member.2.skipFlaw? = none := by
  simp only [skipFlaw?, Option.map_none, Option.or_none, skipMembers?_eq_none_iff, named,
    List.forall_mem_map]

theorem foldMembers_eq_ok_iff {take : σ → String → Decoder ε σ} {start last : σ}
    {members : List (Option String × Reading)} {stop : Option Stop} :
    foldMembers take start members stop = .ok last ↔ stop = none ∧ ∃ list, members = named list ∧
      list.foldlM (fun s member => take s member.1 member.2) start = .ok last := by
  induction members generalizing start with
  | nil =>
      rw [foldMembers, atEnd_eq_ok_iff]
      constructor
      · rintro ⟨hstop, rfl⟩
        exact ⟨hstop, [], rfl, rfl⟩
      · rintro ⟨hstop, list, hlist, hfold⟩
        obtain rfl : list = [] := List.map_eq_nil_iff.1 hlist.symm
        exact ⟨hstop, Except.ok.inj hfold⟩
  | cons member rest ih =>
      obtain ⟨key, value⟩ := member
      constructor
      · intro h
        cases key with
        | none => cases h
        | some key =>
            simp only [foldMembers] at h
            split at h
            · cases h
            · next next hnext =>
                obtain ⟨hstop, list, rfl, hfold⟩ := ih.1 h
                exact ⟨hstop, (key, value) :: list, rfl, bind_eq_ok_iff.2 ⟨next, hnext, hfold⟩⟩
      · rintro ⟨hstop, list, hlist, hfold⟩
        cases list with
        | nil => cases hlist
        | cons first list =>
            obtain ⟨hfirst, rfl⟩ := List.cons.inj hlist
            obtain ⟨rfl, rfl⟩ := Prod.mk.inj hfirst
            obtain ⟨next, hnext, hfold⟩ := bind_eq_ok_iff.1 hfold
            simp only [foldMembers, hnext]
            exact ih.2 ⟨hstop, list, rfl, hfold⟩

theorem once_eq_ok_iff {field next : Option α} {decode : Decoder ε α} {value : Reading} :
    once field decode value = .ok next ↔
      field = none ∧ ∃ a, decode value = .ok a ∧ some a = next := by
  cases field <;> simp [once, map_eq_ok_iff]

def onceEach (field : Option α) (decode : Decoder ε α) (values : List Reading) :
    Except (Refusal ε) (Option α) :=
  values.foldlM (fun field value => once field decode value) field

theorem onceEach_cons_eq_ok_iff {field last : Option α} {decode : Decoder ε α} {value : Reading}
    {rest : List Reading} : onceEach field decode (value :: rest) = .ok last ↔
      ∃ next, once field decode value = .ok next ∧ onceEach next decode rest = .ok last :=
  bind_eq_ok_iff

theorem onceEach_eq_ok_iff {last : Option α} {decode : Decoder ε α} {values : List Reading} :
    onceEach none decode values = .ok last ↔
      (values = [] ∧ last = none) ∨ ∃ value a, values = [value] ∧ decode value = .ok a ∧
        last = some a := by
  cases values with
  | nil => simp [onceEach, pure, Except.pure, eq_comm]
  | cons value rest =>
      simp only [onceEach_cons_eq_ok_iff, once_eq_ok_iff, true_and]
      constructor
      · rintro ⟨_, ⟨a, ha, rfl⟩, hrest⟩
        cases rest with
        | nil => exact .inr ⟨value, a, rfl, ha, (Except.ok.inj hrest).symm⟩
        | cons other rest =>
            obtain ⟨_, hother, -⟩ := onceEach_cons_eq_ok_iff.1 hrest
            cases (once_eq_ok_iff.1 hother).1
      · rintro (⟨h, -⟩ | ⟨_, a, h, ha, rfl⟩)
        · cases h
        · obtain ⟨rfl, rfl⟩ := List.cons.inj h
          exact ⟨some a, ⟨a, ha, rfl⟩, rfl⟩

theorem onceEach_eq_some_iff {a : α} {decode : Decoder ε α} {values : List Reading} :
    onceEach none decode values = .ok (some a) ↔
      ∃ value, values = [value] ∧ decode value = .ok a := by
  rw [onceEach_eq_ok_iff]
  constructor
  · rintro (⟨-, h⟩ | ⟨value, _, hone, hvalue, h⟩)
    · cases h
    · cases h
      exact ⟨value, hone, hvalue⟩
  · rintro ⟨value, hone, hvalue⟩
    exact .inr ⟨value, a, hone, hvalue, rfl⟩

theorem skipFlaw?_of_onceEach {members : List (String × Reading)} {key : String} {last : Option α}
    {decode : Decoder ε α} (hseen : ∀ value a, decode value = .ok a → value.skipFlaw? = none)
    (h : onceEach none decode (valuesOf key members) = .ok last) {member : String × Reading}
    (hmem : member ∈ members) (hkey : member.1 = key) : member.2.skipFlaw? = none := by
  have hvalue : member.2 ∈ valuesOf key members := mem_valuesOf.2 (hkey ▸ hmem)
  rcases onceEach_eq_ok_iff.1 h with ⟨hnil, -⟩ | ⟨value, a, hone, ha, -⟩
  · rw [hnil] at hvalue
    cases hvalue
  · rw [hone] at hvalue
    obtain rfl := List.mem_singleton.1 hvalue
    exact hseen _ a ha

theorem foldlM_once_eq_ok_iff {key : String} {decode : Decoder ε α}
    {members : List (String × Reading)} {start last : Option α} :
    members.foldlM (fun found member =>
        if member.1 = key then once found decode member.2
        else (skip member.2).map fun _ => found) start = .ok last ↔
      onceEach start decode (valuesOf key members) = .ok last ∧
        ∀ member ∈ members, member.1 ≠ key → member.2.skipFlaw? = none := by
  induction members generalizing start with
  | nil => simp [valuesOf, onceEach]
  | cons member rest ih =>
      obtain ⟨name, value⟩ := member
      rw [List.foldlM_cons, bind_eq_ok_iff, valuesOf_cons]
      simp only [ih, List.forall_mem_cons]
      by_cases hname : name = key
      · subst hname
        simp [onceEach_cons_eq_ok_iff, ← and_assoc]
      · have hname' : key ≠ name := fun e => hname e.symm
        simp only [if_neg hname, if_neg hname', map_eq_ok_iff, skip_eq_ok_iff]
        constructor
        · rintro ⟨_, ⟨_, hskip, rfl⟩, hrest, hothers⟩
          exact ⟨hrest, fun _ => hskip, hothers⟩
        · rintro ⟨hrest, hskip, hothers⟩
          exact ⟨start, ⟨(), hskip hname, rfl⟩, hrest, hothers⟩

section TwoFields

variable (first : σ → Option α) (second : σ → Option β) (make : Option α → Option β → σ)
  (hfirst : ∀ a b, first (make a b) = a) (hsecond : ∀ a b, second (make a b) = b)
  (hmake : ∀ s, make (first s) (second s) = s)

include hfirst hsecond hmake

theorem foldlM_two_eq_ok_iff {key key' : String} (hkeys : key' ≠ key) {decode : Decoder ε α}
    {decode' : Decoder ε β} {members : List (String × Reading)} {start last : σ} :
    members.foldlM (fun s member =>
        if member.1 = key then (once (first s) decode member.2).map (make · (second s))
        else if member.1 = key' then (once (second s) decode' member.2).map (make (first s) ·)
        else (skip member.2).map fun _ => s) start = .ok last ↔
      onceEach (first start) decode (valuesOf key members) = .ok (first last) ∧
      onceEach (second start) decode' (valuesOf key' members) = .ok (second last) ∧
        ∀ member ∈ members, member.1 ≠ key → member.1 ≠ key' → member.2.skipFlaw? = none := by
  induction members generalizing start with
  | nil =>
      have hsame : start = last ↔ first start = first last ∧ second start = second last := by
        constructor
        · rintro rfl
          exact ⟨rfl, rfl⟩
        · rintro ⟨hone, hother⟩
          rw [← hmake start, ← hmake last, hone, hother]
      simp [valuesOf, onceEach, pure, Except.pure, hsame]
  | cons member rest ih =>
      obtain ⟨name, value⟩ := member
      rw [List.foldlM_cons, bind_eq_ok_iff, valuesOf_cons, valuesOf_cons]
      simp only [ih, List.forall_mem_cons]
      by_cases hname : name = key
      · subst hname
        simp only [if_true, if_neg hkeys, map_eq_ok_iff, onceEach_cons_eq_ok_iff]
        constructor
        · rintro ⟨_, ⟨next, hnext, rfl⟩, hrest, hother, hothers⟩
          rw [hfirst] at hrest
          rw [hsecond] at hother
          exact ⟨⟨next, hnext, hrest⟩, hother, fun h => absurd rfl h, hothers⟩
        · rintro ⟨⟨next, hnext, hrest⟩, hother, -, hothers⟩
          exact ⟨_, ⟨next, hnext, rfl⟩, by rwa [hfirst], by rwa [hsecond], hothers⟩
      by_cases hname' : name = key'
      · subst hname'
        simp only [if_true, if_neg hname, if_neg (Ne.symm hname), map_eq_ok_iff,
          onceEach_cons_eq_ok_iff]
        constructor
        · rintro ⟨_, ⟨next, hnext, rfl⟩, hother, hrest, hothers⟩
          rw [hfirst] at hother
          rw [hsecond] at hrest
          exact ⟨hother, ⟨next, hnext, hrest⟩, fun _ h => absurd rfl h, hothers⟩
        · rintro ⟨hother, ⟨next, hnext, hrest⟩, -, hothers⟩
          exact ⟨_, ⟨next, hnext, rfl⟩, by rwa [hfirst], by rwa [hsecond], hothers⟩
      · simp only [if_neg hname, if_neg hname', if_neg (Ne.symm hname), if_neg (Ne.symm hname'),
          map_eq_ok_iff, skip_eq_ok_iff]
        constructor
        · rintro ⟨_, ⟨_, hskip, rfl⟩, hrest, hother, hothers⟩
          exact ⟨hrest, hother, fun _ _ => hskip, hothers⟩
        · rintro ⟨hrest, hother, hskip, hothers⟩
          exact ⟨start, ⟨(), hskip hname hname', rfl⟩, hrest, hother, hothers⟩

end TwoFields

theorem Whole.decode_eq_ok_iff {whole : Whole} {decode : Decoder ε α} {a : α} :
    whole.decode decode = .ok a ↔ decode whole.value = .ok a ∧ whole.trailing = none := by
  rw [Whole.decode]
  split <;> simp [*]

theorem decode_ofText_eq_ok_iff {decode : Decoder ε α}
    (hwhole : ∀ value a, decode value = .ok a → value.skipFlaw? = none) {text : List Char} {a : α} :
    (ofText text).decode decode = .ok a ↔
      ∃ value, PaddedSpelled value text ∧ decode value = .ok a := by
  rw [Whole.decode_eq_ok_iff]
  constructor
  · rintro ⟨hvalue, htrailing⟩
    exact ⟨_, ofText_eq_iff.1 ⟨congrArg (Whole.mk _) htrailing, hwhole _ _ hvalue⟩, hvalue⟩
  · rintro ⟨value, hspelled, hvalue⟩
    rw [ofText_of_spelled hspelled]
    exact ⟨hvalue, rfl⟩

end HtmlIds.Reading
