namespace HtmlIds

structure OrderedMap (α : Type) where
  entries : List (String × α)
  ascending : entries.Pairwise fun a b => a.1 < b.1

namespace OrderedMap

variable {α : Type}

instance [DecidableEq α] : DecidableEq (OrderedMap α) := fun m n =>
  if h : m.entries = n.entries then
    isTrue (by cases m; cases n; cases h; rfl)
  else
    isFalse fun e => h (congrArg entries e)

instance [Repr α] : Repr (OrderedMap α) := ⟨fun m => reprPrec m.entries⟩

theorem ext_entries {m n : OrderedMap α} (h : m.entries = n.entries) : m = n := by
  cases m
  cases n
  cases h
  rfl

def empty : OrderedMap α := ⟨[], List.Pairwise.nil⟩

instance : Inhabited (OrderedMap α) := ⟨empty⟩

def place (key : String) (value : α) : List (String × α) → List (String × α)
  | [] => [(key, value)]
  | entry :: rest =>
    if key < entry.1 then (key, value) :: entry :: rest
    else if key = entry.1 then (key, value) :: rest
    else entry :: place key value rest

theorem mem_place {key : String} {value : α} {list : List (String × α)} {entry : String × α}
    (h : entry ∈ place key value list) : entry = (key, value) ∨ entry ∈ list := by
  induction list with
  | nil => simpa [place] using h
  | cons first rest ih =>
      simp only [place] at h
      split at h
      · simpa using h
      · split at h
        · simp only [List.mem_cons] at h ⊢
          exact h.imp_right .inr
        · simp only [List.mem_cons] at h ⊢
          rcases h with h | h
          · exact .inr (.inl h)
          · exact (ih h).imp_right .inr

theorem ascending_place (key : String) (value : α) (list : List (String × α))
    (h : list.Pairwise fun a b => a.1 < b.1) :
    (place key value list).Pairwise fun a b => a.1 < b.1 := by
  induction list with
  | nil => simp [place]
  | cons first rest ih =>
      obtain ⟨hfirst, hrest⟩ := List.pairwise_cons.1 h
      simp only [place]
      split
      · next hlt =>
          refine List.pairwise_cons.2 ⟨fun entry hmem => ?_, h⟩
          rcases List.mem_cons.1 hmem with rfl | hmem
          · exact hlt
          · exact String.lt_trans hlt (hfirst entry hmem)
      · split
        · next heq => exact List.pairwise_cons.2 ⟨fun entry hmem => heq ▸ hfirst entry hmem, hrest⟩
        · next hle hne =>
            refine List.pairwise_cons.2 ⟨fun entry hmem => ?_, ih hrest⟩
            rcases mem_place hmem with rfl | hmem
            · exact Std.lt_of_le_of_ne (String.not_lt.1 hle) fun e => hne e.symm
            · exact hfirst entry hmem

def insert (m : OrderedMap α) (key : String) (value : α) : OrderedMap α :=
  ⟨place key value m.entries, ascending_place key value m.entries m.ascending⟩

def erase (m : OrderedMap α) (key : String) : OrderedMap α :=
  ⟨m.entries.filter fun entry => entry.1 ≠ key, m.ascending.filter _⟩

def find? (m : OrderedMap α) (key : String) : Option α :=
  m.entries.lookup key

def contains (m : OrderedMap α) (key : String) : Bool :=
  (m.find? key).isSome

def keys (m : OrderedMap α) : List String :=
  m.entries.map Prod.fst

def size (m : OrderedMap α) : Nat :=
  m.entries.length

def ofList (entries : List (String × α)) : OrderedMap α :=
  entries.foldl (fun m entry => m.insert entry.1 entry.2) empty

def collect (entries : List (String × α)) : OrderedMap (List α) :=
  entries.foldl (fun m entry => m.insert entry.1 ((m.find? entry.1).getD [] ++ [entry.2])) empty

end OrderedMap

end HtmlIds
