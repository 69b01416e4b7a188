import RelSchema.Naming.Strategy
import RelSchema.Table.Basic

/-!
# Names for unnamed constraints

Every foreign key, index and unique constraint without a name gets one from the naming strategy. The
numbers in the names count positions within each of the three collections; a number whose name is
taken on the table, by a constraint of any kind, is skipped.
-/

namespace RelSchema

/-- A name that was generated for the constraint at this position of its collection. -/
structure AssignedName where
  kind : ConstraintKind
  position : Nat
  name : String
deriving DecidableEq, Repr

/-- Entities that have a name and can be given another one. -/
class Named (α : Type) where
  name : α → String
  rename : α → String → α

instance : Named ForeignKey := ⟨ForeignKey.name, fun key name => { key with name }⟩

instance : Named Index := ⟨Index.name, fun index name => { index with name }⟩

/-- The first number from `number` on whose name is not taken, if one of the next `tries` is. -/
def firstFreeNumber (nameOf : Nat → String) (taken : List String) : Nat → Nat → Nat
  | 0, number => number
  | tries + 1, number =>
    if taken.contains (nameOf number) then firstFreeNumber nameOf taken tries (number + 1)
    else number

/-- What the names of one table are generated from. -/
structure NameSource where
  strategy : NameStrategy
  table : String
  maxLength : Nat

namespace NameSource

def nameOf (source : NameSource) (kind : ConstraintKind) (number : Nat) : String :=
  source.strategy.constraintName ⟨source.table, kind, number, source.maxLength⟩

/-- The name for the constraint at this position: the first one not taken, from the number of the
position on. Each taken name can stand in the way of at most `sharing` numbers. -/
def generate (source : NameSource) (kind : ConstraintKind) (taken : List String) (position : Nat) :
    String :=
  source.nameOf kind
    (firstFreeNumber (source.nameOf kind) taken (source.strategy.sharing * taken.length)
      (position + 1))

end NameSource

/-- A collection in which names have been filled in. -/
structure Filled (α : Type) where
  items : List α
  assigned : List AssignedName
  taken : List String

/-- Names the unnamed entities of a collection from this position on. -/
def fillNames {α : Type} [Named α] (source : NameSource) (kind : ConstraintKind) :
    Nat → List String → List α → Filled α
  | _, taken, [] => ⟨[], [], taken⟩
  | position, taken, a :: rest =>
    if (Named.name a).isEmpty then
      let name := source.generate kind taken position
      let filled := fillNames source kind (position + 1) (name :: taken) rest
      ⟨Named.rename a name :: filled.items, ⟨kind, position, name⟩ :: filled.assigned, filled.taken⟩
    else
      let filled := fillNames source kind (position + 1) taken rest
      ⟨a :: filled.items, filled.assigned, filled.taken⟩

namespace Table

/-- The names that constraints of the table have. -/
def constraintNames (t : Table) : List String :=
  (t.foreignKeys.map (·.name) ++ t.indices.map (·.name) ++ t.uniques.map (·.name)).filter
    (!·.isEmpty)

/-- Names the unnamed foreign keys, then the indices, then the unique constraints, and lists the
names in this order. -/
def nameConstraints (t : Table) (strategy : NameStrategy) (maxLength : Nat) :
    Table × List AssignedName :=
  let source : NameSource := ⟨strategy, t.name, maxLength⟩
  let keys := fillNames source .foreignKey 0 t.constraintNames t.foreignKeys
  let indices := fillNames source .index 0 keys.taken t.indices
  let uniques := fillNames source .unique 0 indices.taken t.uniques
  ({ t with foreignKeys := keys.items, indices := indices.items, uniques := uniques.items },
    keys.assigned ++ indices.assigned ++ uniques.assigned)

end Table

end RelSchema
