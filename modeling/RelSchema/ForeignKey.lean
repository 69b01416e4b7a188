/-!
# Foreign keys

A foreign key lists pairs of a local and a foreign column, so that both sides have the same length
and correspond place by place.
-/

namespace RelSchema

/-- What happens to referencing rows when a referenced row changes. -/
inductive ForeignKeyAction where
  /-- The platform decides. -/
  | unspecified
  | restrict
  | cascade
  | setNull
  | setDefault
  | noAction
deriving DecidableEq, Repr, Inhabited

namespace ForeignKeyAction

def all : List ForeignKeyAction := [unspecified, restrict, cascade, setNull, setDefault, noAction]

def label : ForeignKeyAction → String
  | unspecified => "NONE"
  | restrict => "RESTRICT"
  | cascade => "CASCADE"
  | setNull => "SET_NULL"
  | setDefault => "SET_DEFAULT"
  | noAction => "NO_ACTION"

def ofLabel? (s : String) : Option ForeignKeyAction := all.find? (·.label == s)

end ForeignKeyAction

/-- A local column and the foreign column that it refers to. -/
structure ColumnPair where
  localColumn : String
  foreignColumn : String
deriving DecidableEq, Repr, Inhabited

structure ForeignKey where
  /-- The constraint's name; empty until it is given or generated. -/
  name : String := ""
  foreignTable : String
  foreignSchema : Option String := none
  references : List ColumnPair := []
  onUpdate : ForeignKeyAction := .unspecified
  onDelete : ForeignKeyAction := .unspecified
  /-- Whether the constraint is left out of the table's definition. -/
  skipSql : Bool := false
deriving DecidableEq, Repr, Inhabited

namespace ForeignKey

def addReference (key : ForeignKey) (localColumn foreignColumn : String) : ForeignKey :=
  { key with references := key.references ++ [⟨localColumn, foreignColumn⟩] }

/-- The local columns, in declaration order. -/
def localColumns (key : ForeignKey) : List String := key.references.map (·.localColumn)

/-- The referenced columns, in declaration order. -/
def foreignColumns (key : ForeignKey) : List String := key.references.map (·.foreignColumn)

/-- The foreign column that the first pair with this local column refers to. -/
def mappedForeignColumn? (key : ForeignKey) (localColumn : String) : Option String :=
  (key.references.find? (·.localColumn == localColumn)).map (·.foreignColumn)

def hasLocalColumn (key : ForeignKey) (column : String) : Bool :=
  key.references.any (·.localColumn == column)

/-- Whether the key has more than one pair. -/
def isComposite (key : ForeignKey) : Bool := decide (1 < key.references.length)

def isUnnamed (key : ForeignKey) : Bool := key.name.isEmpty

end ForeignKey

end RelSchema
