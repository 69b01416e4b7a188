import RelSchema.Behavior.Registry
import RelSchema.ConstraintNames
import RelSchema.Synthesis

/-!
# Finalizing a table

Once a table is declared completely, its behaviors are applied, external names are derived, suffixes
of its primary key are indexed if it asks for that, unnamed constraints are named, and an id method
that no column can serve is given up.
-/

namespace RelSchema

/-- The suffixes of a list that are neither empty nor the list itself, the longest first. -/
def properSuffixes {α : Type} : List α → List (List α)
  | [] => []
  | _ :: rest => if rest.isEmpty then [] else rest :: properSuffixes rest

/-- What finalizing changed on a table. -/
structure FinalizeOutcome where
  behaviorsApplied : Nat
  heavyIndices : List SynthesizedIndex
  names : List AssignedName
  /-- Whether the id method was given up. -/
  idMethodNormalized : Bool
deriving DecidableEq, Repr

namespace Table

/-- Adds an unnamed index over these columns, unless one is over exactly them already. -/
def indexSuffix (t : Table) (suffix : List String) : Table × List SynthesizedIndex :=
  if t.indices.any (·.columnNames == suffix) then (t, [])
  else (t.addIndex (.on suffix), [⟨t.name, "", suffix, .heavyIndexing⟩])

def indexSuffixes (t : Table) : List (List String) → Table × List SynthesizedIndex
  | [] => (t, [])
  | suffix :: rest =>
    let (t, added) := t.indexSuffix suffix
    let (t, more) := t.indexSuffixes rest
    (t, added ++ more)

/-- Indexes every proper suffix of a composite primary key: for a key over `a, b, c` these are
`b, c` and `c`. The key itself needs no index. -/
def indexHeavily (t : Table) : Table × List SynthesizedIndex :=
  t.indexSuffixes (properSuffixes t.primaryKeyNames)

/-- Gives up the native id method when the platform generates no column's values. -/
def normalizeIdMethod (t : Table) : Table × Bool :=
  if t.effectiveIdMethod == .native && !t.hasAutoIncrementColumn then
    ({ t with idMethod := some .none }, true)
  else (t, false)

/-- The entry under the name of the first index over its columns. -/
def withIndexName (t : Table) (entry : SynthesizedIndex) : SynthesizedIndex :=
  match t.indices.find? (·.columnNames == entry.columns) with
  | some index => { entry with name := index.name }
  | none => entry

/-- The steps of finalizing after the behaviors; they cannot fail. -/
def complete (t : Table) (behaviorsApplied : Nat) (strategy : NameStrategy) (maxLength : Nat) :
    Table × FinalizeOutcome :=
  let t := t.deriveExternalNames strategy
  let (t, heavy) := if t.effectiveHeavyIndexing then t.indexHeavily else (t, [])
  let (t, names) := t.nameConstraints strategy maxLength
  let heavy := heavy.map t.withIndexName
  let (t, normalized) := t.normalizeIdMethod
  (t, { behaviorsApplied, heavyIndices := heavy, names, idMethodNormalized := normalized })

/-- Finalizes a table. When a behavior is refused, what the behaviors before it changed stays. -/
def finalize (t : Table) (behaviors : BehaviorRegistry) (strategy : NameStrategy)
    (maxLength : Nat) : Table × Except SchemaError FinalizeOutcome :=
  let applied := behaviors.apply t
  match applied.error with
  | some e => (applied.state, .error e)
  | none =>
    let (done, outcome) := applied.state.complete t.behaviors.length strategy maxLength
    (done, .ok outcome)

end Table

end RelSchema
