/-!
# Schema errors

The reasons for which a change of a schema is refused, each with the names that it is about, and
the one wording of each.
-/

namespace RelSchema

inductive SchemaError where
  | duplicateTable (table : String)
  | tableNotFound (table : String)
  | duplicateColumn (table column : String)
  /-- A second column is to tell the rows of a hierarchy apart. -/
  | duplicateInheritanceColumn (table existing column : String)
  | duplicateBehavior (table behavior : String)
  | columnNotFound (table column : String)
  | indexNotFound (table index : String)
  /-- A declared behavior that nothing implements. -/
  | unknownBehavior (table behavior : String)
  /-- A foreign key whose target table is not declared. -/
  | danglingForeignKey (table foreignKey foreignTable : String)
  /-- A foreign key that uses a column which its own table lacks. -/
  | danglingLocalColumn (table foreignKey column : String)
  /-- A foreign key that refers to a column which its target lacks. -/
  | danglingForeignColumn (table foreignKey foreignTable column : String)
deriving DecidableEq, Repr

namespace SchemaError

/-- The error in words. -/
def message : SchemaError → String
  | duplicateTable table => s!"Table '{table}' is already declared in the database"
  | tableNotFound table => s!"Table '{table}' does not exist in the database"
  | duplicateColumn table column => s!"Column '{column}' already exists in table '{table}'"
  | duplicateInheritanceColumn table existing column =>
    s!"Table '{table}' already has inheritance column '{existing}', cannot add '{column}'"
  | duplicateBehavior table behavior =>
    s!"Behavior '{behavior}' is already registered on table '{table}'"
  | columnNotFound table column => s!"Column '{column}' does not exist in table '{table}'"
  | indexNotFound table index => s!"Index '{index}' does not exist in table '{table}'"
  | unknownBehavior table behavior =>
    s!"Unknown behavior '{behavior}' declared on table '{table}'"
  | danglingForeignKey table _ foreignTable =>
    s!"Table '{table}' contains a foreign key to nonexistent table '{foreignTable}'"
  | danglingLocalColumn table foreignKey column =>
    s!"Table '{table}' contains foreign key '{foreignKey}' with nonexistent local column '{column}'"
  | danglingForeignColumn table foreignKey foreignTable column =>
    s!"Table '{table}' contains foreign key '{foreignKey}' to table '{foreignTable}' with nonexistent column '{column}'"

/-- Whether the error is about a foreign key that points at nothing. -/
def isReferential : SchemaError → Bool
  | danglingForeignKey .. | danglingLocalColumn .. | danglingForeignColumn .. => true
  | _ => false

end SchemaError

end RelSchema
