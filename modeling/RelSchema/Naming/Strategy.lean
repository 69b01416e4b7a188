import RelSchema.KeyMap
import RelSchema.Naming.Method
import RelSchema.Text.Cut

/-!
# Naming strategies

A strategy produces the names of unnamed constraints and the external names of columns. Strategies
are registered under a key, and a configuration picks one by its key. The standard strategy writes
`<table>_<tag>_<number>` and shortens the table part until the name fits the identifier limit.
-/

namespace RelSchema

/-- What a generated name is for. -/
inductive ConstraintKind where
  | foreignKey
  | index
  | unique
deriving DecidableEq, Repr, Inhabited

namespace ConstraintKind

def all : List ConstraintKind := [foreignKey, index, unique]

def label : ConstraintKind → String
  | foreignKey => "ForeignKey"
  | index => "Index"
  | unique => "Unique"

def ofLabel? (s : String) : Option ConstraintKind := all.find? (·.label == s)

/-- The tag that generated names carry. -/
def tag : ConstraintKind → String
  | foreignKey => "FK"
  | index => "I"
  | unique => "U"

end ConstraintKind

/-- What a constraint name is generated from. -/
structure ConstraintScope where
  table : String
  kind : ConstraintKind
  /-- Counts from 1 within the table's constraints of this kind. -/
  number : Nat
  /-- The longest name that the platform accepts, in bytes. -/
  maxLength : Nat
deriving DecidableEq, Repr

/-- A way of generating names. -/
structure NameStrategy where
  name : String
  constraintName : ConstraintScope → String
  externalName : NamingMethod → String → String := NamingMethod.apply
  /-- At most this many numbers of one table, kind and limit get the same name. -/
  sharing : Nat := 1

namespace NameStrategy

/-- The part of a standard name after the table: separators, tag and number. -/
def standardTail (kind : ConstraintKind) (number : Nat) : String :=
  "_" ++ kind.tag ++ "_" ++ toString number

/-- The bytes that a standard name leaves for the table part. -/
def tableBudget (scope : ConstraintScope) : Nat :=
  scope.maxLength - (standardTail scope.kind scope.number).utf8ByteSize

/-- The table part, cut to its budget between two characters, then the tag and the number. -/
def standardName (scope : ConstraintScope) : String :=
  String.ofList (Text.takeBytes (tableBudget scope) scope.table.toList) ++
    standardTail scope.kind scope.number

/-- The strategy that is used unless another one is configured. -/
def standard : NameStrategy where
  name := "default"
  constraintName := standardName

end NameStrategy

/-- Naming strategies by their configuration keys. -/
abbrev NameStrategies := KeyMap NameStrategy

/-- The strategies that every program knows. -/
def NameStrategies.builtIn : NameStrategies := KeyMap.ofList [("default", .standard)]

example : NameStrategy.standardName ⟨"book", .foreignKey, 1, 64⟩ = "book_FK_1" := by decide +kernel
example : NameStrategy.standardName ⟨"ééé", .foreignKey, 1, 10⟩ = "éé_FK_1" := by decide +kernel

end RelSchema
