import RelSchema.Column
import RelSchema.Text.Case

/-!
# Column lookups

A table finds its columns by exact name, by name regardless of case, and by external name. Each
lookup is a list of entries, newest first: an entry says at which place a key was entered, and of
several entries with one key the newest counts. Entering a column at the end of a list gives the
same lookups as entering the whole longer list again (`ofList_append_singleton`).
-/

namespace RelSchema

/-- Places in a list by a key, newest entry first. -/
abbrev PlaceLookup := List (String × Nat)

structure ColumnLookups where
  byName : PlaceLookup := []
  byLowerName : PlaceLookup := []
  byExternalName : PlaceLookup := []
deriving DecidableEq, Repr, Inhabited

namespace ColumnLookups

/-- Enters a column that stands at this place. -/
def enter (lookups : ColumnLookups) (place : Nat) (c : Column) : ColumnLookups where
  byName := (c.name, place) :: lookups.byName
  byLowerName := (Text.lower c.name, place) :: lookups.byLowerName
  byExternalName := (c.externalName, place) :: lookups.byExternalName

/-- Enters the columns one after the other, from this place on. -/
def enterAll (lookups : ColumnLookups) (place : Nat) : List Column → ColumnLookups
  | [] => lookups
  | c :: rest => (lookups.enter place c).enterAll (place + 1) rest

/-- The lookups of a list of columns, entered from the first to the last. -/
def ofList (columns : List Column) : ColumnLookups := enterAll {} 0 columns

theorem enterAll_append (lookups : ColumnLookups) (place : Nat) (xs ys : List Column) :
    lookups.enterAll place (xs ++ ys) = (lookups.enterAll place xs).enterAll (place + xs.length) ys := by
  induction xs generalizing lookups place with
  | nil => rfl
  | cons c xs ih =>
    simp only [List.cons_append, enterAll, ih, List.length_cons]
    congr 1
    omega

/-- Entering one more column at the end is the same as entering all columns anew. -/
theorem ofList_append_singleton (columns : List Column) (c : Column) :
    ofList (columns ++ [c]) = (ofList columns).enter columns.length c := by
  simp [ofList, enterAll_append, enterAll]

/-- Entries stay when more columns are entered. -/
theorem mem_byName_enterAll_of_mem {lookups : ColumnLookups} {entry : String × Nat}
    (h : entry ∈ lookups.byName) (place : Nat) (columns : List Column) :
    entry ∈ (lookups.enterAll place columns).byName := by
  induction columns generalizing lookups place with
  | nil => exact h
  | cons c rest ih => exact ih (List.mem_cons_of_mem _ h) _

theorem exists_entry_of_mem {lookups : ColumnLookups} {place : Nat} {columns : List Column}
    {c : Column} (h : c ∈ columns) :
    ∃ p, (c.name, p) ∈ (lookups.enterAll place columns).byName := by
  induction columns generalizing lookups place with
  | nil => cases h
  | cons d rest ih =>
    rcases List.mem_cons.1 h with rfl | h
    · refine ⟨place, ?_⟩
      show _ ∈ ((lookups.enter place c).enterAll (place + 1) rest).byName
      exact mem_byName_enterAll_of_mem (List.mem_cons_self ..) _ _
    · exact ih h

/-- A name without an entry is the name of no column. -/
theorem not_mem_names_of_lookup_eq_none {columns : List Column} {name : String}
    (h : (ofList columns).byName.lookup name = none) : name ∉ columns.map (·.name) := by
  intro hmem
  obtain ⟨c, hc, rfl⟩ := List.mem_map.1 hmem
  obtain ⟨p, hp⟩ : ∃ p, (c.name, p) ∈ (ofList columns).byName := exists_entry_of_mem hc
  have hno := List.lookup_eq_none_iff.1 h _ hp
  simp at hno

end ColumnLookups

end RelSchema
