/-!
# Target platforms

What the database products differ in, as far as a schema is concerned: schema qualifiers, indices
behind foreign keys, the length of identifiers, and how identities are generated.
-/

namespace RelSchema

/-- How a platform generates identities. -/
inductive NativeIdStrategy where
  | identity
  | sequence
deriving DecidableEq, Repr, Inhabited

namespace NativeIdStrategy

def all : List NativeIdStrategy := [identity, sequence]

def label : NativeIdStrategy → String
  | identity => "identity"
  | sequence => "sequence"

def ofLabel? (s : String) : Option NativeIdStrategy := all.find? (·.label == s)

end NativeIdStrategy

inductive Platform where
  | generic
  | mysql
  | postgresql
  | sqlite
  | oracle
  | mssql
deriving DecidableEq, Repr, Inhabited

namespace Platform

def all : List Platform := [generic, mysql, postgresql, sqlite, oracle, mssql]

def label : Platform → String
  | generic => "generic"
  | mysql => "mysql"
  | postgresql => "postgresql"
  | sqlite => "sqlite"
  | oracle => "oracle"
  | mssql => "mssql"

def ofLabel? (s : String) : Option Platform := all.find? (·.label == s)

/-- Whether table names can be qualified with a schema. -/
def supportsSchemas : Platform → Bool
  | postgresql | mssql | oracle => true
  | generic | mysql | sqlite => false

/-- Whether both column lists of a foreign key have to lead some index. -/
def needsKeyIndices : Platform → Bool
  | mysql => true
  | _ => false

/-- The longest identifier, in bytes. -/
def maxIdentifierLength : Platform → Nat
  | generic | mysql => 64
  | postgresql => 63
  | sqlite => 1024
  | oracle => 30
  | mssql => 128

def nativeIdStrategy : Platform → NativeIdStrategy
  | postgresql | oracle => .sequence
  | generic | mysql | sqlite | mssql => .identity

end Platform

end RelSchema
