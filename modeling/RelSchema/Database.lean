import RelSchema.Table.Edit

/-!
# Databases

A database holds its tables in declaration order and finds them by handle or by name. A table that
is added takes over the default schema and the defaults that the database has at that moment.

A name is entered when its table is added, and only then: a table is not renamed once it was added,
neither by any step of this library nor by a program that changes it behind its handle. The names of
tables are therefore unique and stay at their places, and a table is found at the first place where
its name stands.
-/

namespace RelSchema

structure Database where
  name : String
  platform : Platform := .generic
  /-- The schema of tables that name none. -/
  defaultSchema : Option String := none
  defaults : Defaults := {}
  tables : List Table := []
deriving DecidableEq, Inhabited

/-- A many-to-many relation through a cross-reference table. -/
structure CrossForeignKeys where
  middleTable : TableId
  /-- Points from the middle table at the table that the pair was computed for. -/
  incoming : ForeignKeyId
  /-- Points from the middle table at the other side. -/
  outgoing : ForeignKeyId
deriving DecidableEq, Repr

namespace Database

/-- Sets the defaults that later tables take over; those already there keep theirs. -/
def withDefaults (db : Database) (defaults : Defaults) : Database := { db with defaults }

/-- The handles of all tables, in declaration order. -/
def tableIds (db : Database) : List TableId := (List.range db.tables.length).map TableId.mk

def table? (db : Database) (id : TableId) : Option Table := db.tables[id.index]?

/-- The handle of the table that was added under this name. -/
def tableId? (db : Database) (name : String) : Option TableId :=
  (db.tables.findIdx? (·.name == name)).map TableId.mk

def hasTable (db : Database) (name : String) : Bool := (db.tableId? name).isSome

def tableByName? (db : Database) (name : String) : Option Table := (db.tableId? name).bind db.table?

/-- The handle of a table that has to be declared. -/
def requireTable (db : Database) (name : String) : Except SchemaError TableId :=
  match db.tableId? name with
  | some id => .ok id
  | none => .error (.tableNotFound name)

/-- Changes the table behind a handle, if there is one. -/
def modifyTable (db : Database) (id : TableId) (f : Table → Table) : Database :=
  { db with tables := db.tables.modify id.index f }

/-- Adds a table, which takes over the default schema and the defaults. Table names are unique. -/
def addTable (db : Database) (t : Table) : Except SchemaError (TableId × Database) :=
  if db.hasTable t.name then .error (.duplicateTable t.name)
  else
    let adopted := { t with schema := t.schema.or db.defaultSchema }.inherit db.defaults
    .ok (⟨db.tables.length⟩, { db with tables := db.tables ++ [adopted] })

/-- The foreign key behind a handle. -/
def foreignKey? (db : Database) (id : ForeignKeyId) : Option ForeignKey :=
  (db.table? id.table).bind fun t => t.foreignKeys[id.position]?

def foreignKeyCount (db : Database) : Nat :=
  db.tables.foldl (fun count t => count + t.foreignKeys.length) 0

/-- The pairs that one referrer takes part in: with each other foreign key of its table, if that
is a cross-reference table. -/
def crossPairs (db : Database) (incoming : ForeignKeyId) : List CrossForeignKeys :=
  match db.table? incoming.table with
  | none => []
  | some middle =>
    if middle.isCrossRef then
      (middle.otherForeignKeys incoming.position).map fun (position, _) =>
        ⟨incoming.table, incoming, ⟨incoming.table, position⟩⟩
    else []

/-- The many-to-many relations of a table, in the order of its referrers. -/
def crossForeignKeys (db : Database) (id : TableId) : List CrossForeignKeys :=
  match db.table? id with
  | none => []
  | some t => t.referrers.flatMap db.crossPairs

end Database

end RelSchema
