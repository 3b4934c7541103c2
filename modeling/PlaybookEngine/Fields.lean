namespace PlaybookEngine

/-- A map from texts, as its pairs in increasing order of the keys. -/
abbrev Fields (α : Type) := List (String × α)

namespace Fields

variable {α β : Type}

def get? (k : String) : Fields α → Option α
  | [] => none
  | (j, v) :: rest => if j = k then some v else get? k rest

/-- Puts `v` at `k`, in the place that keeps the keys in order. -/
def insert (k : String) (v : α) : Fields α → Fields α
  | [] => [(k, v)]
  | (j, w) :: rest =>
    if k = j then (k, v) :: rest
    else if k < j then (k, v) :: (j, w) :: rest
    else (j, w) :: insert k v rest

def erase (k : String) (fs : Fields α) : Fields α := fs.filter (·.1 ≠ k)

def contains (k : String) (fs : Fields α) : Bool := (get? k fs).isSome

def keys (fs : Fields α) : List String := fs.map (·.1)

/-- Of pairs with one key the last one counts. -/
def ofList (pairs : List (String × α)) : Fields α :=
  pairs.foldl (fun fs p => insert p.1 p.2 fs) []

/-- `upper` on top of `base`: its keys win. -/
def overlay (base upper : Fields α) : Fields α :=
  upper.foldl (fun fs p => insert p.1 p.2 fs) base

def mapValues (f : α → β) (fs : Fields α) : Fields β := fs.map fun p => (p.1, f p.2)

@[simp] theorem get?_nil (k : String) : get? k ([] : Fields α) = none := rfl

theorem get?_cons (k j : String) (v : α) (fs : Fields α) :
    get? k ((j, v) :: fs) = if j = k then some v else get? k fs := rfl

theorem get?_insert (k j : String) (v : α) (fs : Fields α) :
    get? j (insert k v fs) = if k = j then some v else get? j fs := by
  induction fs with
  | nil => simp [insert, get?]
  | cons p rest ih =>
    obtain ⟨i, w⟩ := p
    unfold insert
    split
    · subst_vars
      simp only [get?]
      split <;> rfl
    · split
      · simp [get?]
      · simp only [get?, ih]
        split <;> split <;> simp_all

@[simp] theorem get?_insert_self (k : String) (v : α) (fs : Fields α) :
    get? k (insert k v fs) = some v := by simp [get?_insert]

theorem get?_insert_of_ne {k j : String} (h : k ≠ j) (v : α) (fs : Fields α) :
    get? j (insert k v fs) = get? j fs := by simp [get?_insert, h]

theorem get?_erase (k j : String) (fs : Fields α) :
    get? j (erase k fs) = if j = k then none else get? j fs := by
  induction fs with
  | nil => simp [erase]
  | cons p rest ih =>
    obtain ⟨i, w⟩ := p
    simp only [erase, List.filter_cons] at ih ⊢
    by_cases hi : i = k <;> by_cases hj : j = k <;> simp_all [get?]
    intro h
    exact absurd h.symm hj

theorem get?_mapValues (f : α → β) (k : String) (fs : Fields α) :
    get? k (mapValues f fs) = (get? k fs).map f := by
  induction fs with
  | nil => rfl
  | cons p rest ih =>
    simp only [mapValues, List.map_cons, get?] at ih ⊢
    split
    · rfl
    · exact ih

end Fields

end PlaybookEngine
