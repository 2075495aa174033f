/-!
# Tables

Values under keys, in the order in which the keys came, each key once.
-/

namespace LanguageClient

structure Table (κ : Type) (α : Type) where
  entries : List (κ × α)
  deriving Repr

namespace Table

variable {κ α : Type} [DecidableEq κ]

def empty : Table κ α := ⟨[]⟩

instance : Inhabited (Table κ α) := ⟨empty⟩

def find? (key : κ) : List (κ × α) → Option α
  | [] => none
  | (k, a) :: rest => if k = key then some a else find? key rest

def get? (t : Table κ α) (key : κ) : Option α :=
  find? key t.entries

def contains (t : Table κ α) (key : κ) : Bool :=
  (t.get? key).isSome

def put (key : κ) (a : α) : List (κ × α) → List (κ × α)
  | [] => [(key, a)]
  | (k, b) :: rest => if k = key then (key, a) :: rest else (k, b) :: put key a rest

def insert (t : Table κ α) (key : κ) (a : α) : Table κ α :=
  ⟨put key a t.entries⟩

def remove (key : κ) : List (κ × α) → List (κ × α)
  | [] => []
  | (k, a) :: rest => if k = key then remove key rest else (k, a) :: remove key rest

def erase (t : Table κ α) (key : κ) : Table κ α :=
  ⟨remove key t.entries⟩

def size (t : Table κ α) : Nat :=
  t.entries.length

def keys (t : Table κ α) : List κ :=
  t.entries.map (·.1)

/-!
## Looking up after a change
-/

@[simp] theorem get?_empty (key : κ) : (empty : Table κ α).get? key = none := rfl

theorem find?_put (key other : κ) (a : α) (entries : List (κ × α)) :
    find? other (put key a entries) = if key = other then some a else find? other entries := by
  induction entries with
  | nil => simp [put, find?]
  | cons entry rest ih =>
    obtain ⟨k, b⟩ := entry
    by_cases hk : k = key
    · subst hk
      by_cases ho : k = other <;> simp [put, find?, ho]
    · by_cases ho : k = other
      · subst ho
        simp [put, find?, hk, Ne.symm hk]
      · simp [put, find?, hk, ho, ih]

@[simp] theorem get?_insert (t : Table κ α) (key other : κ) (a : α) :
    (t.insert key a).get? other = if key = other then some a else t.get? other :=
  find?_put key other a t.entries

theorem find?_remove (key other : κ) (entries : List (κ × α)) :
    find? other (remove key entries) = if key = other then none else find? other entries := by
  induction entries with
  | nil => simp [remove, find?]
  | cons entry rest ih =>
    obtain ⟨k, b⟩ := entry
    by_cases hk : k = key
    · subst hk
      by_cases ho : k = other
      · simpa [remove, ho] using ih
      · simpa [remove, find?, ho] using ih
    · by_cases ho : k = other
      · subst ho
        simp [remove, find?, hk, Ne.symm hk]
      · simp [remove, find?, hk, ho, ih]

@[simp] theorem get?_erase (t : Table κ α) (key other : κ) :
    (t.erase key).get? other = if key = other then none else t.get? other :=
  find?_remove key other t.entries

end Table
end LanguageClient
