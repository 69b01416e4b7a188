import RelSchema.Table.Edit
import RelSchema.Walk

/-!
# Behaviors

A behavior changes the table that declares it when the table is finalized. Behaviors are registered
under names; a declaration is turned into a behavior by the maker registered under its name. The
built-in behavior `timestampable` gives a table two time columns.
-/

namespace RelSchema

/-- A change of tables with a name. -/
structure Behavior where
  name : String
  modify : Table → Walk Table

/-- Behavior makers by the names under which tables declare them. -/
abbrev BehaviorRegistry := KeyMap (KeyMap String → Behavior)

/-- Names of the two columns that hold when a row was created and last changed. -/
structure Timestampable where
  createColumn : String := "created_at"
  updateColumn : String := "updated_at"
deriving DecidableEq, Repr

namespace Timestampable

/-- The columns named by the parameters, with standard names for those that are not. -/
def ofParameters (parameters : KeyMap String) : Timestampable where
  createColumn := (parameters.find? "create_column").getD "created_at"
  updateColumn := (parameters.find? "update_column").getD "updated_at"

/-- Adds a time column unless the table has a column with this name. -/
def ensureColumn (t : Table) (name : String) : Walk Table :=
  if t.hasColumn name then { state := t }
  else match t.tryAddColumn { name, columnType := .timestamp } with
    | (t', .ok _) => { state := t' }
    | (t', .error e) => { state := t', error := some e }

def behavior (columns : Timestampable) : Behavior where
  name := "timestampable"
  modify t := Walk.along ensureColumn t [columns.createColumn, columns.updateColumn]

end Timestampable

namespace BehaviorRegistry

/-- The behaviors that every program knows. -/
def builtIn : BehaviorRegistry :=
  KeyMap.ofList [("timestampable", fun parameters => (Timestampable.ofParameters parameters).behavior)]

def create? (registry : BehaviorRegistry) (declaration : BehaviorDeclaration) : Option Behavior :=
  (registry.find? declaration.name).map (· declaration.parameters)

/-- Applies one declared behavior. -/
def applyOne (registry : BehaviorRegistry) (t : Table) (declaration : BehaviorDeclaration) :
    Walk Table :=
  match registry.create? declaration with
  | none => { state := t, error := some (.unknownBehavior t.name declaration.name) }
  | some behavior => behavior.modify t

/-- Applies the behaviors that the table declares, in order. -/
def apply (registry : BehaviorRegistry) (t : Table) : Walk Table :=
  Walk.along registry.applyOne t t.behaviors

end BehaviorRegistry

end RelSchema
