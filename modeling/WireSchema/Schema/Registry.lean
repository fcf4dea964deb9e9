/-
Module: WireSchema.Schema.Registry
Purpose: A registry holds values under keys.  It keeps its keys in the order in which they first
  came; a value put under a key that is there already takes the place of the old one.
Main exports: Registry, Registry.get?, Registry.insert, Registry.extend
-/

namespace WireSchema

/-- Values under keys, in the order of the first insertion. -/
structure Registry (κ α : Type) where
  entries : List (κ × α) := []
deriving Repr

namespace Registry

variable {κ α : Type} [DecidableEq κ]

/-- The value under a key. -/
def get? (registry : Registry κ α) (key : κ) : Option α :=
  (registry.entries.find? fun entry => entry.1 == key).map (·.2)

/-- Put a value among some entries. -/
def insertEntry (key : κ) (value : α) : List (κ × α) → List (κ × α)
  | [] => [(key, value)]
  | entry :: rest =>
    if entry.1 = key then (key, value) :: rest else entry :: insertEntry key value rest

/-- The registry with a value under a key. -/
def insert (registry : Registry κ α) (key : κ) (value : α) : Registry κ α :=
  ⟨insertEntry key value registry.entries⟩

/-- The registry with every entry of another one put in, in turn. -/
def extend (registry other : Registry κ α) : Registry κ α :=
  other.entries.foldl (fun extended entry => extended.insert entry.1 entry.2) registry

theorem find?_insertEntry_self (key : κ) (value : α) (entries : List (κ × α)) :
    (insertEntry key value entries).find? (fun entry => entry.1 == key) = some (key, value) := by
  induction entries with
  | nil => simp [insertEntry]
  | cons entry rest ih =>
    by_cases same : entry.1 = key
    · simp [insertEntry, same]
    · simp [insertEntry, same, ih]

theorem find?_insertEntry_of_ne {key other : κ} (different : key ≠ other) (value : α)
    (entries : List (κ × α)) :
    (insertEntry key value entries).find? (fun entry => entry.1 == other) =
      entries.find? (fun entry => entry.1 == other) := by
  induction entries with
  | nil => simp [insertEntry, different]
  | cons entry rest ih =>
    by_cases same : entry.1 = key
    · simp [insertEntry, same, different]
    · rw [insertEntry, if_neg same, List.find?_cons, List.find?_cons, ih]

theorem get?_insert_self (registry : Registry κ α) (key : κ) (value : α) :
    (registry.insert key value).get? key = some value := by
  simp [get?, insert, find?_insertEntry_self]

theorem get?_insert_of_ne (registry : Registry κ α) {key other : κ} (different : key ≠ other)
    (value : α) : (registry.insert key value).get? other = registry.get? other := by
  simp [get?, insert, find?_insertEntry_of_ne different]

end Registry

end WireSchema
