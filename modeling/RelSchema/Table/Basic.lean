import RelSchema.Behavior.Declaration
import RelSchema.Defaults
import RelSchema.ForeignKey
import RelSchema.Index
import RelSchema.Platform
import RelSchema.Table.Columns

/-!
# Tables

A table owns its columns, foreign keys, indices, unique constraints and behavior declarations, and
keeps the foreign keys that point at it. Settings that it leaves open it takes from the defaults it
inherited from its database.
-/

namespace RelSchema

/-- A parameter of the id method, such as the name of a sequence. -/
structure IdMethodParameter where
  name : Option String := none
  value : String
deriving DecidableEq, Repr, Inhabited

structure Table where
  name : String
  schema : Option String := none
  /-- The table that this one stands for; such a table is referenced but never declared. -/
  aliasOf : Option String := none
  description : Option String := none
  idMethod : Option IdMethod := none
  idMethodParameters : List IdMethodParameter := []
  readOnly : Bool := false
  isAbstract : Bool := false
  skipGeneration : Bool := false
  /-- Whether the table links the rows of other tables many to many. -/
  isCrossRef : Bool := false
  stringFormat : Option StringFormat := none
  heavyIndexing : Option Bool := none
  namingMethod : Option NamingMethod := none
  columns : Columns := .empty
  foreignKeys : List ForeignKey := []
  indices : List Index := []
  uniques : List Index := []
  behaviors : List BehaviorDeclaration := []
  /-- The foreign keys that point at this table, in the order they were linked. -/
  referrers : List ForeignKeyId := []
  /-- Whether some primary key column is also a column of a linked foreign key. -/
  containsForeignPrimaryKey : Bool := false
  /-- What the table falls back to; set when a database adopts it. -/
  inherited : Defaults := {}
deriving DecidableEq

namespace Table

instance : Inhabited Table := ⟨{ name := "" }⟩

def isAlias (t : Table) : Bool := t.aliasOf.isSome

/-- The name, behind its schema where the platform has schemas. -/
def qualifiedName (t : Table) (platform : Platform) : String :=
  match t.schema with
  | some schema => if platform.supportsSchemas then schema ++ "." ++ t.name else t.name
  | none => t.name

/-! ## Settings with defaults -/

def effectiveIdMethod (t : Table) : IdMethod := t.idMethod.getD t.inherited.idMethod

def effectiveNamingMethod (t : Table) : NamingMethod :=
  t.namingMethod.getD t.inherited.namingMethod

def effectiveStringFormat (t : Table) : StringFormat :=
  t.stringFormat.getD t.inherited.stringFormat

def effectiveHeavyIndexing (t : Table) : Bool := t.heavyIndexing.getD t.inherited.heavyIndexing

/-! ## Facts about columns -/

def columnNames (t : Table) : List String := t.columns.names

def hasColumn (t : Table) (name : String) : Bool := t.columns.contains name

def column? (t : Table) (name : String) : Option Column := t.columns.find? name

/-- The primary key columns, in position order. -/
def primaryKey (t : Table) : List Column := t.columns.list.filter (·.primaryKey)

def primaryKeyNames (t : Table) : List String := t.primaryKey.map (·.name)

def hasPrimaryKey (t : Table) : Bool := !t.primaryKey.isEmpty

def hasCompositePrimaryKey (t : Table) : Bool := decide (1 < t.primaryKey.length)

/-- The first primary key column whose values the platform generates. -/
def autoIncrementPrimaryKey? (t : Table) : Option Column :=
  t.columns.list.find? fun c => c.primaryKey && c.autoIncrement

def hasAutoIncrementColumn (t : Table) : Bool := t.columns.list.any (·.autoIncrement)

/-- The column that tells the rows of a single-table hierarchy apart. -/
def inheritanceColumn? (t : Table) : Option Column := t.columns.list.find? (·.inheritance)

def lazyLoadColumnCount (t : Table) : Nat := t.columns.list.countP (·.lazyLoad)

def hasEnumColumns (t : Table) : Bool := t.columns.list.any (·.isEnum)

/-! ## Facts about foreign keys -/

def foreignKeyByName? (t : Table) (name : String) : Option ForeignKey :=
  t.foreignKeys.find? (·.name == name)

/-- The foreign keys that use the column as a local column. -/
def columnForeignKeys (t : Table) (column : String) : List ForeignKey :=
  t.foreignKeys.filter (·.hasLocalColumn column)

/-- The foreign keys that point at the table with this name. -/
def foreignKeysTo (t : Table) (table : String) : List ForeignKey :=
  t.foreignKeys.filter (·.foreignTable == table)

/-- The foreign keys other than the one at this position, with their positions. -/
def otherForeignKeys (t : Table) (position : Nat) : List (Nat × ForeignKey) :=
  (t.foreignKeys.zipIdx.map fun (key, place) => (place, key)).filter (·.1 != position)

def hasReferrer (t : Table) (key : ForeignKeyId) : Bool := t.referrers.contains key

/-! ## Facts about indices and behaviors -/

/-- The first index with this name; unique constraints do not count. -/
def index? (t : Table) (name : String) : Option Index := t.indices.find? (·.name == name)

def hasIndex (t : Table) (name : String) : Bool := t.indices.any (·.name == name)

def hasBehavior (t : Table) (name : String) : Bool := t.behaviors.any (·.name == name)

end Table

end RelSchema
