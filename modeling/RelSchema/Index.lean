/-!
# Indices and unique constraints

Both are named lists of columns; a column may be indexed by its beginning only. A unique constraint
is an index with the `unique` flag.
-/

namespace RelSchema

/-- A column of an index; with a size, only that many leading characters are indexed. -/
structure IndexColumn where
  name : String
  size : Option Nat := none
deriving DecidableEq, Repr, Inhabited

structure Index where
  /-- Empty until it is given or generated. -/
  name : String := ""
  columns : List IndexColumn := []
  unique : Bool := false
deriving DecidableEq, Repr, Inhabited

namespace Index

/-- An unnamed index over these columns in full. -/
def on (columns : List String) : Index := { columns := columns.map fun c => { name := c } }

def addColumn (index : Index) (name : String) (size : Option Nat) : Index :=
  { index with columns := index.columns ++ [⟨name, size⟩] }

/-- The indexed columns, in order. -/
def columnNames (index : Index) : List String := index.columns.map (·.name)

def hasColumn (index : Index) (name : String) : Bool := index.columns.any (·.name == name)

/-- Whether some column is indexed by its beginning only. -/
def isSized (index : Index) : Bool := index.columns.any (·.size.isSome)

/-- The same index over its columns in full. -/
def resetSizes (index : Index) : Index :=
  { index with columns := index.columns.map fun c => { c with size := none } }

def isUnnamed (index : Index) : Bool := index.name.isEmpty

/-- Whether the index has as many columns as are given and holds each given one. -/
def matchesColumns (index : Index) (columns : List String) : Bool :=
  index.columns.length == columns.length && columns.all index.hasColumn

@[simp] theorem columnNames_on (columns : List String) : (on columns).columnNames = columns := by
  simp [on, columnNames, Function.comp_def]

@[simp] theorem columnNames_resetSizes (index : Index) :
    index.resetSizes.columnNames = index.columnNames := by
  simp [resetSizes, columnNames, Function.comp_def]

end Index

end RelSchema
