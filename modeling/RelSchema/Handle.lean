/-!
# Handles

References inside a schema are handles into its database. Tables and foreign keys are never removed
from a database, so a handle stays valid and equal handles mean the same entity.
-/

namespace RelSchema

/-- The place of a table among the tables of its database. -/
structure TableId where
  index : Nat
deriving DecidableEq, Repr, Inhabited

/-- A foreign key: the table that declares it, and its place among that table's foreign keys. -/
structure ForeignKeyId where
  table : TableId
  position : Nat
deriving DecidableEq, Repr, Inhabited

end RelSchema
