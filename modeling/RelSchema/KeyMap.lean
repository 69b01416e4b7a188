/-!
# Maps from text keys

A finite map kept as pairs in increasing order of their keys, each key once, so that two maps with
the same content are equal and the order of the keys never depends on how the map was filled.
-/

namespace RelSchema

/-- A finite map from texts, listed by increasing key. -/
structure KeyMap (α : Type) where
  entries : List (String × α)
deriving DecidableEq, Repr

namespace KeyMap

variable {α : Type}

def empty : KeyMap α := ⟨[]⟩

instance : Inhabited (KeyMap α) := ⟨empty⟩

def find? (m : KeyMap α) (key : String) : Option α := m.entries.lookup key

def contains (m : KeyMap α) (key : String) : Bool := (m.find? key).isSome

def keys (m : KeyMap α) : List String := m.entries.map (·.1)

/-- Puts a pair at its place in a sorted list, replacing the pair with the same key. -/
def insertSorted (key : String) (value : α) : List (String × α) → List (String × α)
  | [] => [(key, value)]
  | (k, v) :: rest =>
    if key < k then (key, value) :: (k, v) :: rest
    else if key = k then (key, value) :: rest
    else (k, v) :: insertSorted key value rest

def insert (m : KeyMap α) (key : String) (value : α) : KeyMap α :=
  ⟨insertSorted key value m.entries⟩

/-- The map with these pairs; of several pairs with one key the last counts. -/
def ofList (pairs : List (String × α)) : KeyMap α :=
  pairs.foldl (fun m p => m.insert p.1 p.2) empty

theorem lookup_cons_eq (k key : String) (value : α) (pairs : List (String × α)) :
    ((key, value) :: pairs).lookup k = if k = key then some value else pairs.lookup k := by
  rw [List.lookup_cons]
  by_cases h : k = key
  · simp [h]
  · simp [h, beq_eq_false_iff_ne.2 h]

theorem lookup_insertSorted (key k : String) (value : α) (pairs : List (String × α)) :
    (insertSorted key value pairs).lookup k =
      if k = key then some value else pairs.lookup k := by
  induction pairs with
  | nil => rw [insertSorted, lookup_cons_eq]
  | cons p rest ih =>
    obtain ⟨k', v⟩ := p
    rw [insertSorted]
    split
    · rw [lookup_cons_eq]
    · split
      · rename_i h
        subst h
        rw [lookup_cons_eq, lookup_cons_eq]
        split <;> rfl
      · rename_i hne
        rw [lookup_cons_eq, lookup_cons_eq, ih]
        by_cases h : k = k' <;> by_cases h' : k = key <;> simp_all

/-- A look-up after an insertion finds the new value at its key and the old one elsewhere. -/
theorem find?_insert (m : KeyMap α) (key k : String) (value : α) :
    (m.insert key value).find? k = if k = key then some value else m.find? k :=
  lookup_insertSorted key k value m.entries

end KeyMap

end RelSchema
