import RelSchema.Handle

/-!
# Columns

A column as it is declared, with the two facts that its table fills in: the position, and the
foreign keys that point at it.
-/

namespace RelSchema

inductive ColumnType where
  | boolean
  | tinyInt
  | smallInt
  | integer
  | bigInt
  | float
  | double
  /-- A fixed-point number; its precision and scale are the column's size and scale. -/
  | decimal
  | char
  | varchar
  | longVarchar
  | clob
  | blob
  | date
  | time
  | timestamp
  | enum (values : List String)
deriving DecidableEq, Repr

namespace ColumnType

/-- The types without a list of values. -/
def plain : List ColumnType :=
  [boolean, tinyInt, smallInt, integer, bigInt, float, double, decimal, char, varchar, longVarchar,
    clob, blob, date, time, timestamp]

/-- The word for the kind of type, in lower case. -/
def label : ColumnType → String
  | boolean => "boolean"
  | tinyInt => "tinyint"
  | smallInt => "smallint"
  | integer => "integer"
  | bigInt => "bigint"
  | float => "float"
  | double => "double"
  | decimal => "decimal"
  | char => "char"
  | varchar => "varchar"
  | longVarchar => "longvarchar"
  | clob => "clob"
  | blob => "blob"
  | date => "date"
  | time => "time"
  | timestamp => "timestamp"
  | enum _ => "enum"

def isEnum : ColumnType → Bool
  | enum _ => true
  | _ => false

/-- Whether values are large objects, which are candidates for loading on demand. -/
def isLargeObject : ColumnType → Bool
  | clob | blob | longVarchar => true
  | _ => false

/-- Whether values are dates or times. -/
def isTemporal : ColumnType → Bool
  | date | time | timestamp => true
  | _ => false

/-- The type as it reads in a table description. -/
def display : ColumnType → String
  | enum values => "ENUM(" ++ ", ".intercalate values ++ ")"
  | t => t.label.toUpper

end ColumnType

/-- A column of a table. -/
structure Column where
  name : String
  /-- The name that generated code uses; derived by the table unless given explicitly. -/
  externalName : String := ""
  /-- Counts from 1 within the table; 0 while the column belongs to none. -/
  position : Nat := 0
  columnType : ColumnType
  /-- Length or precision. -/
  size : Option Nat := none
  scale : Option Nat := none
  primaryKey : Bool := false
  /-- Whether the platform generates the values. -/
  autoIncrement : Bool := false
  /-- Whether the column is unique on its own. -/
  unique : Bool := false
  notNull : Bool := false
  lazyLoad : Bool := false
  /-- Whether the column tells the rows of a single-table hierarchy apart. -/
  inheritance : Bool := false
  defaultValue : Option String := none
  description : Option String := none
  /-- The foreign keys that point at this column, in the order they were linked. -/
  referrers : List ForeignKeyId := []
  /-- Whether the external name was given rather than derived. -/
  explicitName : Bool := false
deriving DecidableEq, Repr

namespace Column

/-- Makes the column part of the primary key, which excludes null. -/
def asPrimaryKey (c : Column) : Column := { c with primaryKey := true, notNull := true }

/-- Fixes the external name, which the table then leaves alone. -/
def withExternalName (c : Column) (externalName : String) : Column :=
  { c with externalName, explicitName := true }

def isEnum (c : Column) : Bool := c.columnType.isEnum

def hasReferrer (c : Column) (key : ForeignKeyId) : Bool := c.referrers.contains key

/-- Records a foreign key that points at the column; a second time changes nothing. -/
def addReferrer (c : Column) (key : ForeignKeyId) : Column :=
  if c.hasReferrer key then c else { c with referrers := c.referrers ++ [key] }

def isReferenced (c : Column) : Bool := !c.referrers.isEmpty

end Column

end RelSchema
