import RelSchema.Table.Basic

/-!
# Unique and indexed column lists

Which lists of columns determine a row, and which are indexed, in whatever order they are given.
-/

namespace RelSchema

namespace Table

/-- Whether the one column is unique by itself, or is the whole primary key. -/
def isUniqueColumn (t : Table) (column : String) : Bool :=
  match t.column? column with
  | some c => c.unique || (c.primaryKey && t.primaryKey.length == 1)
  | none => false

/-- Whether the columns are as many as the primary key has, and hold each of its columns. -/
def matchesPrimaryKey (t : Table) (columns : List String) : Bool :=
  t.primaryKeyNames.length == columns.length && t.primaryKeyNames.all columns.contains

/-- Whether the columns determine a row: by a unique column, the primary key, or a unique
constraint. -/
def isUnique (t : Table) (columns : List String) : Bool :=
  match columns with
  | [] => false
  | column :: others =>
    (others.isEmpty && t.isUniqueColumn column) || t.matchesPrimaryKey columns ||
      t.uniques.any (·.matchesColumns columns)

/-- Whether an index is over these columns. -/
def isIndex (t : Table) (columns : List String) : Bool :=
  !columns.isEmpty && t.indices.any (·.matchesColumns columns)

end Table

end RelSchema
