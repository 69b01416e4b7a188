import RelSchema.Diagnostic
import RelSchema.Synthesis
import RelSchema.Walk

/-!
# Linking foreign keys

Foreign keys are declared at the referencing side only. Linking records the inverse edges: every
referenced table and column learns which foreign keys point at it. Handles are recorded once, so
linking can be repeated while more tables join the schema. What a foreign key names and the schema
lacks is dangling: it is skipped with a warning, or refused.
-/

namespace RelSchema

/-- What happens to dangling references. -/
inductive ReferenceCheck where
  /-- They are skipped with a warning. -/
  | tolerant
  /-- The first one is an error. -/
  | strict
deriving DecidableEq, Repr, Inhabited

namespace ReferenceCheck

def all : List ReferenceCheck := [tolerant, strict]

def label : ReferenceCheck → String
  | tolerant => "tolerant"
  | strict => "strict"

def ofLabel? (s : String) : Option ReferenceCheck := all.find? (·.label == s)

def ofBool (strict : Bool) : ReferenceCheck := if strict then .strict else .tolerant

end ReferenceCheck

/-- One of the things that a foreign key names. -/
inductive KeyEnd where
  | target
  | localColumn (name : String)
  | foreignColumn (name : String)
deriving DecidableEq, Repr

/-- What a foreign key names, in the order it is linked: the target, the local columns, the
referenced columns. -/
def ForeignKey.ends (key : ForeignKey) : List KeyEnd :=
  .target :: (key.localColumns.map .localColumn ++ key.foreignColumns.map .foreignColumn)

/-- A foreign key with its handle and the name of the table that declares it. -/
structure DeclaredKey where
  id : ForeignKeyId
  table : String
  key : ForeignKey
deriving DecidableEq, Repr

/-- Something a foreign key names and the schema lacks. -/
structure DanglingEnd where
  error : SchemaError
  code : DiagnosticCode
  location : Location
deriving DecidableEq, Repr

/-- The warning that a tolerant run gives. -/
def DanglingEnd.warning (d : DanglingEnd) : Diagnostic :=
  { code := d.code, severity := .warn, message := d.error.message, location := some d.location }

namespace DeclaredKey

/-- Why the schema lacks what this end names, if it does. Without the target there is no table to
look for referenced columns in, and only the target is reported. -/
def dangling? (k : DeclaredKey) (db : Database) : KeyEnd → Option DanglingEnd
  | .target =>
    if db.hasTable k.key.foreignTable then none
    else some {
      error := .danglingForeignKey k.table k.key.name k.key.foreignTable
      code := .refMissingTable
      location := .ofConstraint k.table k.key.name }
  | .localColumn column =>
    if (db.table? k.id.table).any (·.hasColumn column) then none
    else some {
      error := .danglingLocalColumn k.table k.key.name column
      code := .refMissingLocalColumn
      location := (Location.ofConstraint k.table k.key.name).withColumn column }
  | .foreignColumn column =>
    if (db.tableByName? k.key.foreignTable).all (·.hasColumn column) then none
    else some {
      error := .danglingForeignColumn k.table k.key.name k.key.foreignTable column
      code := .refMissingForeignColumn
      location := (Location.ofConstraint k.key.foreignTable k.key.name).withColumn column }

/-- The database after an end that is not dangling was linked. -/
def connect (k : DeclaredKey) (db : Database) : KeyEnd → Database
  | .target =>
    match db.tableId? k.key.foreignTable with
    | some id => db.modifyTable id (·.addReferrer k.id)
    | none => db
  | .localColumn column =>
    if ((db.table? k.id.table).bind (·.column? column)).any (·.primaryKey) then
      db.modifyTable k.id.table (·.markForeignPrimaryKey)
    else db
  | .foreignColumn column =>
    match db.tableId? k.key.foreignTable with
    | some id => db.modifyTable id (·.amendColumn column (·.addReferrer k.id))
    | none => db

/-- How many new edges linking this end records: one, unless it is known already. -/
def newEdges (k : DeclaredKey) (db : Database) : KeyEnd → Nat
  | .target => if (db.tableByName? k.key.foreignTable).all (·.hasReferrer k.id) then 0 else 1
  | .localColumn _ => 0
  | .foreignColumn column =>
    if ((db.tableByName? k.key.foreignTable).bind (·.column? column)).all (·.hasReferrer k.id) then 0
    else 1

end DeclaredKey

/-- What linking the foreign keys of one table did. -/
structure LinkOutcome where
  foreignKeys : Nat := 0
  /-- The edges that were not known before. -/
  edgesAdded : Nat := 0
  /-- The warnings of a tolerant run. -/
  diagnostics : List Diagnostic := []
  synthesized : List SynthesizedIndex := []
deriving DecidableEq, Repr

/-- A database in the course of linking, with what has been done. -/
structure LinkState where
  db : Database
  outcome : LinkOutcome := {}

namespace LinkState

/-- Links one end of a foreign key. -/
def visitEnd (check : ReferenceCheck) (k : DeclaredKey) (s : LinkState) (e : KeyEnd) :
    Walk LinkState :=
  match k.dangling? s.db e, check with
  | none, _ =>
    { state := {
        db := k.connect s.db e
        outcome := { s.outcome with edgesAdded := s.outcome.edgesAdded + k.newEdges s.db e } } }
  | some d, .tolerant =>
    { state := { s with
        outcome := { s.outcome with diagnostics := s.outcome.diagnostics ++ [d.warning] } } }
  | some d, .strict => { state := s, error := some d.error }

/-- Adds the indices that a table lacks. -/
def synthesize (s : LinkState) (id : TableId) : LinkState :=
  let (db, added) := s.db.synthesizeIndices id
  { db, outcome := { s.outcome with synthesized := s.outcome.synthesized ++ added } }

/-- Adds the indices behind a foreign key where the platform needs them: to its own table, then to
the target unless that is the same table. -/
def synthesizeFor (s : LinkState) (k : DeclaredKey) : LinkState :=
  if s.db.platform.needsKeyIndices then
    let s := s.synthesize k.id.table
    match s.db.tableId? k.key.foreignTable with
    | some id => if id = k.id.table then s else s.synthesize id
    | none => s
  else s

/-- Links one foreign key. -/
def visitKey (check : ReferenceCheck) (s : LinkState) (k : DeclaredKey) : Walk LinkState :=
  let counted := { s with outcome := { s.outcome with foreignKeys := s.outcome.foreignKeys + 1 } }
  (Walk.along (visitEnd check k) counted k.key.ends).andThen fun s => { state := s.synthesizeFor k }

end LinkState

namespace Database

/-- The foreign keys that a table declares, in order. -/
def declaredKeys (db : Database) (id : TableId) : List DeclaredKey :=
  match db.table? id with
  | none => []
  | some t => t.foreignKeys.zipIdx.map fun (key, position) => ⟨⟨id, position⟩, t.name, key⟩

/-- Links the foreign keys of one table. What was linked before an error stays. -/
def linkTable (db : Database) (check : ReferenceCheck) (id : TableId) :
    Database × Except SchemaError LinkOutcome :=
  let w := Walk.along (LinkState.visitKey check) { db } (db.declaredKeys id)
  (w.state.db, match w.error with
    | none => .ok w.state.outcome
    | some e => .error e)

end Database

end RelSchema
