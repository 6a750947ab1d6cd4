/-!
Tables that remember the order in which their keys came: a key that is put again keeps its place
and takes the new entry. `get?` is the view; `get?_put` says what `put` does to it.
-/

namespace Conveyor

/-- Entries in order of their keys' first appearance. -/
abbrev Table (κ : Type u) (α : Type v) := List (κ × α)

namespace Table

variable {κ : Type u} {α : Type v} [BEq κ]

def get? : Table κ α → κ → Option α
  | [], _ => none
  | (k, a) :: rest, key => if k == key then some a else get? rest key

def has (t : Table κ α) (key : κ) : Bool := (t.get? key).isSome

/-- Sets the entry of a key, in place if the key is there and at the end otherwise. -/
def put : Table κ α → κ → α → Table κ α
  | [], key, a => [(key, a)]
  | (k, b) :: rest, key, a => if k == key then (k, a) :: rest else (k, b) :: put rest key a

def erase (t : Table κ α) (key : κ) : Table κ α := t.filter fun e => !(e.1 == key)

def keys (t : Table κ α) : List κ := t.map (·.1)

def putAll (t : Table κ α) (entries : List (κ × α)) : Table κ α :=
  entries.foldl (fun t e => t.put e.1 e.2) t

/-- The table of a list of entries; of a repeated key the last entry counts. -/
def ofEntries (entries : List (κ × α)) : Table κ α := putAll [] entries

theorem get?_put [LawfulBEq κ] (t : Table κ α) (key k : κ) (a : α) :
    (t.put key a).get? k = if key == k then some a else t.get? k := by
  induction t with
  | nil => rfl
  | cons e rest ih =>
      obtain ⟨k', b⟩ := e
      by_cases h : k' = key
      · subst h
        by_cases hk : k' = k <;> simp [put, get?, hk]
      · by_cases hk : k' = k
        · subst hk
          simp [put, get?, h, Ne.symm h]
        · simp [put, get?, h, hk, ih]

end Table

end Conveyor
