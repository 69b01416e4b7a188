import RelSchema.Naming.Method

/-!
# Table defaults

Settings that a table may fix itself and otherwise takes from its database.
-/

namespace RelSchema

/-- How the values of a primary key come about. -/
inductive IdMethod where
  /-- The application provides them. -/
  | none
  /-- The platform generates them. -/
  | native
  /-- They are those of another table. -/
  | foreignTable
deriving DecidableEq, Repr

namespace IdMethod

def all : List IdMethod := [none, native, foreignTable]

def label : IdMethod → String
  | none => "none"
  | native => "native"
  | foreignTable => "foreign_table"

def ofLabel? (s : String) : Option IdMethod := all.find? (·.label == s)

end IdMethod

/-- The format in which generated code serializes rows. -/
inductive StringFormat where
  | yaml
  | json
  | xml
  | csv
deriving DecidableEq, Repr

namespace StringFormat

def all : List StringFormat := [yaml, json, xml, csv]

def label : StringFormat → String
  | yaml => "yaml"
  | json => "json"
  | xml => "xml"
  | csv => "csv"

def ofLabel? (s : String) : Option StringFormat := all.find? (·.label == s)

end StringFormat

/-- What a database hands to the tables that it adopts. -/
structure Defaults where
  idMethod : IdMethod := .native
  namingMethod : NamingMethod := .underscore
  stringFormat : StringFormat := .yaml
  /-- Whether the suffixes of composite primary keys are indexed. -/
  heavyIndexing : Bool := false
deriving DecidableEq, Repr, Inhabited

end RelSchema
