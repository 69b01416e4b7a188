import RelSchema.Table.Basic

/-!
# Coverage of column lists

An index serves every list of columns that it begins with: one on `a, b, c` also serves `a` and
`a, b`, but neither `b` nor `c`. A coverage map knows, for each list that is served, the names of
the constructs that serve it. A list is known by its columns joined with commas.
-/

namespace RelSchema

/-- The non-empty beginnings of a list, from the shortest to the list itself. -/
def leadingLists {α : Type} : List α → List (List α)
  | [] => []
  | a :: rest => [a] :: (leadingLists rest).map (a :: ·)

/-- Names of serving constructs, in the order they were recorded, by the lists they serve. -/
structure CoverageMap where
  buckets : List (String × List String) := []
deriving DecidableEq, Repr, Inhabited

namespace CoverageMap

/-- What a list of columns is known by. -/
def columnKey (columns : List String) : String := ",".intercalate columns

/-- Adds a name at the end of the bucket with this key. -/
def addTo (key name : String) : List (String × List String) → List (String × List String)
  | [] => [(key, [name])]
  | (k, names) :: rest =>
    if k = key then (k, names ++ [name]) :: rest else (k, names) :: addTo key name rest

/-- Records that a construct serves every non-empty beginning of these columns. -/
def record (m : CoverageMap) (name : String) (columns : List String) : CoverageMap :=
  ⟨(leadingLists columns).foldl (fun buckets list => addTo (columnKey list) name buckets) m.buckets⟩

/-- Drops a name from all lists; lists that nothing serves any more are dropped with it. -/
def forget (m : CoverageMap) (name : String) : CoverageMap :=
  ⟨(m.buckets.map fun (key, names) => (key, names.filter (· != name))).filter (!·.2.isEmpty)⟩

/-- Whether something serves these columns in this order. -/
def isCovered (m : CoverageMap) (columns : List String) : Bool :=
  (m.buckets.lookup (columnKey columns)).isSome

/-- The constructs that serve these columns. -/
def covering (m : CoverageMap) (columns : List String) : List String :=
  (m.buckets.lookup (columnKey columns)).getD []

/-- The name under which a primary key is recorded. -/
def primaryKeyName : String := "PRIMARY"

/-- The lists that the primary key, the indices and the unique constraints of a table serve. -/
def ofTable (t : Table) : CoverageMap :=
  let start : CoverageMap :=
    if t.primaryKeyNames.isEmpty then {} else record {} primaryKeyName t.primaryKeyNames
  (t.indices ++ t.uniques).foldl (fun m index => m.record index.name index.columnNames) start

example : leadingLists ["a", "b", "c"] = [["a"], ["a", "b"], ["a", "b", "c"]] := by decide

end CoverageMap

end RelSchema
