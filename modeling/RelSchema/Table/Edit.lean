import RelSchema.Naming.Strategy
import RelSchema.SchemaError
import RelSchema.Table.Basic

/-!
# Changing a table

Every change either succeeds or leaves the table as it was and says why. The changes of columns give
the table that they leave beside their result, also when they are refused; for callers that have no
use for the table of a refused change they come in a second form, as all other changes do: an error
and no table.
-/

namespace RelSchema

namespace Table

/-! ## Columns -/

/-- The column as the table will hold it: without an explicit external name it gets the one that
the table's naming method derives. -/
def named (t : Table) (c : Column) : Column :=
  if c.explicitName then c
  else { c with externalName := t.effectiveNamingMethod.apply c.name }

theorem name_named (t : Table) (c : Column) : (t.named c).name = c.name := by
  unfold named
  split <;> rfl

/-- The column that already tells the rows apart, when `c` is to do so as well. -/
def inheritanceClash? (t : Table) (c : Column) : Option Column :=
  if c.inheritance then t.inheritanceColumn? else none

/-- Appends a column and gives it as the table holds it. Names are unique, and at most one column
may tell the rows apart. -/
def tryAddColumn (t : Table) (c : Column) : Table × Except SchemaError Column :=
  if h : t.columns.contains c.name = true then (t, .error (.duplicateColumn t.name c.name))
  else match t.inheritanceClash? c with
    | some existing => (t, .error (.duplicateInheritanceColumn t.name existing.name c.name))
    | none =>
      ({ t with columns := t.columns.push (t.named c) (by rwa [t.name_named]) },
        .ok { t.named c with position := t.columns.list.length + 1 })

/-- The table with one more column. -/
def addColumn (t : Table) (c : Column) : Except SchemaError Table :=
  match t.tryAddColumn c with
  | (t', .ok _) => .ok t'
  | (_, .error e) => .error e

/-- Takes out a column, which then belongs to no table; the others move up. -/
def tryRemoveColumn (t : Table) (name : String) : Table × Except SchemaError Column :=
  match t.columns.remove? name with
  | none => (t, .error (.columnNotFound t.name name))
  | some (c, columns) => ({ t with columns }, .ok { c with position := 0 })

/-- The column with this name and the table without it. -/
def removeColumn (t : Table) (name : String) : Except SchemaError (Column × Table) :=
  match t.tryRemoveColumn name with
  | (t', .ok c) => .ok (c, t')
  | (_, .error e) => .error e

/-- Adding a column is refused and leaves the table, or the column comes last and is new. -/
theorem tryAddColumn_cases (t : Table) (c : Column) :
    (∃ e, t.tryAddColumn c = (t, .error e)) ∨
      t.inheritanceClash? c = none ∧ ∃ hnew, t.tryAddColumn c =
        ({ t with columns := t.columns.push (t.named c) hnew },
          .ok { t.named c with position := t.columns.list.length + 1 }) := by
  unfold tryAddColumn
  split
  · exact Or.inl ⟨_, rfl⟩
  · rename_i hnew
    split
    · exact Or.inl ⟨_, rfl⟩
    · rename_i hclash
      exact Or.inr ⟨hclash, by rwa [t.name_named], rfl⟩

/-- Taking a column out is refused and leaves the table, or the table holds the other columns. -/
theorem tryRemoveColumn_cases (t : Table) (name : String) :
    t.columns.remove? name = none ∧ (∃ e, t.tryRemoveColumn name = (t, .error e)) ∨
      ∃ c columns, t.columns.remove? name = some (c, columns) ∧
        t.tryRemoveColumn name = ({ t with columns }, .ok { c with position := 0 }) := by
  unfold tryRemoveColumn
  split
  · rename_i hnone
    exact Or.inl ⟨hnone, _, rfl⟩
  · rename_i c columns hremove
    exact Or.inr ⟨c, columns, hremove, rfl⟩

theorem addColumn_eq_ok_iff {t t' : Table} {c : Column} :
    t.addColumn c = .ok t' ↔ ∃ d, t.tryAddColumn c = (t', .ok d) := by
  unfold addColumn
  split <;> simp_all

theorem removeColumn_eq_ok_iff {t t' : Table} {name : String} {c : Column} :
    t.removeColumn name = .ok (c, t') ↔ t.tryRemoveColumn name = (t', .ok c) := by
  unfold removeColumn
  split <;> simp_all [and_comm]

/-- What adding a column comes to when it is not refused. -/
theorem addColumn_eq_ok {t t' : Table} {c : Column} (h : t.addColumn c = .ok t') :
    t.inheritanceClash? c = none ∧
      ∃ hnew, t' = { t with columns := t.columns.push (t.named c) hnew } := by
  obtain ⟨d, hadd⟩ := addColumn_eq_ok_iff.1 h
  rcases t.tryAddColumn_cases c with ⟨e, hrefused⟩ | ⟨hclash, hnew, hadded⟩
  · cases hadd.symm.trans hrefused
  · cases hadd.symm.trans hadded
    exact ⟨hclash, hnew, rfl⟩

/-- What taking a column out comes to when it is not refused. -/
theorem removeColumn_eq_ok {t t' : Table} {name : String} {c : Column}
    (h : t.removeColumn name = .ok (c, t')) :
    ∃ d columns, t.columns.remove? name = some (d, columns) ∧ t' = { t with columns } := by
  have hremove := removeColumn_eq_ok_iff.1 h
  rcases t.tryRemoveColumn_cases name with ⟨-, e, hrefused⟩ | ⟨d, columns, hd, hremoved⟩
  · cases hremove.symm.trans hrefused
  · cases hremove.symm.trans hremoved
    exact ⟨d, columns, hd, rfl⟩

/-- Changes the column with this name, if there is one, in all but what it is looked up by. -/
def amendColumn (t : Table) (name : String) (f : Column → Column) : Table :=
  { t with columns := t.columns.amend name f }

/-- Derives the external names that are not explicit from the names and the naming method. -/
def refreshExternalNames (t : Table) (derive : NamingMethod → String → String) : Table :=
  { t with columns := t.columns.deriveExternalNames (derive t.effectiveNamingMethod) }

def deriveExternalNames (t : Table) (strategy : NameStrategy) : Table :=
  t.refreshExternalNames strategy.externalName

/-- Takes over the defaults of a database, and the external names that follow from them. -/
def inherit (t : Table) (defaults : Defaults) : Table :=
  { t with inherited := defaults }.refreshExternalNames NamingMethod.apply

/-! ## Foreign keys and referrers -/

def addForeignKey (t : Table) (key : ForeignKey) : Table :=
  { t with foreignKeys := t.foreignKeys ++ [key] }

/-- Changes the foreign key at this position, if there is one. -/
def amendForeignKey (t : Table) (position : Nat) (f : ForeignKey → ForeignKey) : Table :=
  { t with foreignKeys := t.foreignKeys.modify position f }

/-- Records a foreign key that points at the table; a second time changes nothing. -/
def addReferrer (t : Table) (key : ForeignKeyId) : Table :=
  if t.hasReferrer key then t else { t with referrers := t.referrers ++ [key] }

/-- Marks the table as having a primary key column that is also a foreign key column. -/
def markForeignPrimaryKey (t : Table) : Table := { t with containsForeignPrimaryKey := true }

/-! ## Indices, unique constraints and behaviors -/

/-- Appends an index; it is not a unique constraint, whatever its flag says. -/
def addIndex (t : Table) (index : Index) : Table :=
  { t with indices := t.indices ++ [{ index with unique := false }] }

/-- Appends a unique constraint. -/
def addUnique (t : Table) (index : Index) : Table :=
  { t with uniques := t.uniques ++ [{ index with unique := true }] }

/-- Changes the index at this position, if there is one. -/
def amendIndex (t : Table) (position : Nat) (f : Index → Index) : Table :=
  { t with indices := t.indices.modify position f }

/-- Changes the unique constraint at this position, if there is one. -/
def amendUnique (t : Table) (position : Nat) (f : Index → Index) : Table :=
  { t with uniques := t.uniques.modify position f }

/-- Takes out the first index with this name. -/
def removeIndex (t : Table) (name : String) : Except SchemaError (Index × Table) :=
  match t.index? name with
  | none => .error (.indexNotFound t.name name)
  | some index => .ok (index, { t with indices := t.indices.eraseP (·.name == name) })

/-- Declares a behavior; a table declares each behavior once. -/
def addBehavior (t : Table) (behavior : BehaviorDeclaration) : Except SchemaError Table :=
  if t.hasBehavior behavior.name then .error (.duplicateBehavior t.name behavior.name)
  else .ok { t with behaviors := t.behaviors ++ [behavior] }

end Table

end RelSchema
