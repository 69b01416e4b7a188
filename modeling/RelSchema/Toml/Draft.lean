import RelSchema.Toml.Basic

/-!
# Tables while they are read

A table of a document comes about from lines that may stand far apart, so until the end it is known
in which way it was made: by its own header, as a stop on the way to another table, or by a dotted
key. A header may stand once, and may complete a table that was only a stop; a dotted key may only
enter tables that dotted keys made, and a plain one only those that none made.
-/

namespace RelSchema

namespace Toml

mutual

/-- A table that may still grow. -/
inductive Draft where
  /-- An implicit table has had no header of its own; a dotted one was made by a dotted key. -/
  | mk (implicit dotted : Bool) (entries : List (String × Node))

/-- What stands under a key. -/
inductive Node where
  | value (v : Toml)
  | table (t : Draft)
  /-- An array of tables, each from a header in double brackets. -/
  | tables (earlier : List Draft) (last : Draft)

end

namespace Draft

/-- A table with a header of its own. -/
def explicit : Draft := mk false false []

def implicit : Draft → Bool
  | mk implicit _ _ => implicit

def dotted : Draft → Bool
  | mk _ dotted _ => dotted

def entries : Draft → List (String × Node)
  | mk _ _ entries => entries

def find? (d : Draft) (key : String) : Option Node := d.entries.lookup key

/-- Replaces the entry at its place, or adds it behind the others. -/
def putEntry (key : String) (node : Node) : List (String × Node) → List (String × Node)
  | [] => [(key, node)]
  | e :: entries => if e.1 = key then (key, node) :: entries else e :: putEntry key node entries

def put (key : String) (node : Node) : Draft → Draft
  | mk implicit dotted entries => mk implicit dotted (putEntry key node entries)

/-- Changes the table at the end of a path. Missing tables are made on the way; an array of tables
is entered at its last table. The keys before the dots of a dotted key may not enter a table with
a header. -/
def descend (dotted : Bool) (change : Draft → Option Draft) : List String → Draft → Option Draft
  | [], d => change d
  | key :: path, d =>
    match d.find? key with
    | none =>
      (descend dotted change path (mk true dotted [])).map fun t => d.put key (.table t)
    | some (.value _) => none
    | some (.table t) =>
      if dotted && !t.implicit then none
      else (descend dotted change path t).map fun t => d.put key (.table t)
    | some (.tables earlier last) =>
      (descend dotted change path last).map fun last => d.put key (.tables earlier last)

/-- The keys before the last one, and the last one. -/
def splitLast? : List String → Option (List String × String)
  | [] => none
  | [key] => some ([], key)
  | key :: path => (splitLast? path).map fun (init, last) => (key :: init, last)

/-- Adds a value under a new key, whose parts but the last one lead to its table. -/
def addPair (key : List String) (v : Toml) (d : Draft) : Option Draft := do
  let (path, last) ← splitLast? key
  d.descend true
    (fun t =>
      if t.dotted == path.isEmpty || (t.find? last).isSome then none
      else some (t.put last (.value v)))
    path

/-- Makes the table at a path a table with a header. -/
def openTable (path : List String) (d : Draft) : Option Draft := do
  let (path, last) ← splitLast? path
  d.descend false
    (fun t =>
      match t.find? last with
      | none => some (t.put last (.table explicit))
      | some (.table (mk true false entries)) => some (t.put last (.table (mk false false entries)))
      | some _ => none)
    path

/-- Adds an empty table to the array of tables at a path. -/
def appendTable (path : List String) (d : Draft) : Option Draft := do
  let (path, last) ← splitLast? path
  d.descend false
    (fun t =>
      match t.find? last with
      | none => some (t.put last (.tables [] explicit))
      | some (.tables earlier newest) => some (t.put last (.tables (earlier ++ [newest]) explicit))
      | some _ => none)
    path

end Draft

/-! ## The finished value -/

mutual

def Draft.finish : Draft → Toml
  | .mk _ _ entries => .table (finishEntries entries)

def Node.finish : Node → Toml
  | .value v => v
  | .table t => t.finish
  | .tables earlier last => .array (finishAll earlier ++ [last.finish])

def finishEntries : List (String × Node) → List (String × Toml)
  | [] => []
  | (key, node) :: entries => (key, node.finish) :: finishEntries entries

def finishAll : List Draft → List Toml
  | [] => []
  | t :: tables => t.finish :: finishAll tables

end

end Toml

end RelSchema
