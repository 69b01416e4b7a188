import RelSchema.Finalization
import RelSchema.Linkage
import RelSchema.Report

/-!
# Resolving a schema

Resolving has two phases. The first finalizes each table by itself. The second links the foreign
keys, for which all tables have to be known. Both can be run again after more tables were added.
-/

namespace RelSchema

/-- How a schema is resolved. -/
structure Resolver where
  strategy : NameStrategy := .standard
  behaviors : BehaviorRegistry := .builtIn
  check : ReferenceCheck := .tolerant

/-- Counts an added index and reports it. -/
def Report.addSynthesized (r : Report) (index : SynthesizedIndex) : Report :=
  { r with summary := { r.summary with indicesSynthesized := r.summary.indicesSynthesized + 1 } }.add
    { code := .indexSynthesized
      severity := .info
      message := "Added index '" ++ index.name ++ "' on (" ++ ", ".intercalate index.columns ++ ")"
      location := some (.ofConstraint index.table index.name) }

/-- Accounts for a finalized table. -/
def Report.addFinalized (r : Report) (outcome : FinalizeOutcome) : Report :=
  outcome.heavyIndices.foldl addSynthesized
    { r with summary := { r.summary with
        tablesResolved := r.summary.tablesResolved + 1
        namesAssigned := r.summary.namesAssigned + outcome.names.length } }

/-- Accounts for a table whose foreign keys were linked. -/
def Report.addLinked (r : Report) (outcome : LinkOutcome) : Report :=
  outcome.synthesized.foldl addSynthesized
    ({ r with summary := { r.summary with
        foreignKeysLinked := r.summary.foreignKeysLinked + outcome.foreignKeys } }.addAll
      outcome.diagnostics)

/-- A database in the course of being resolved, with the report so far. -/
structure Resolution where
  db : Database
  report : Report

namespace Resolver

/-- Finalizes one table. -/
def finalizeTable (r : Resolver) (s : Resolution) (id : TableId) : Walk Resolution :=
  match s.db.table? id with
  | none => { state := s }
  | some t =>
    match t.finalize r.behaviors r.strategy s.db.platform.maxIdentifierLength with
    | (t, .ok outcome) =>
      { state := ⟨s.db.modifyTable id fun _ => t, s.report.addFinalized outcome⟩ }
    | (t, .error e) => { state := { s with db := s.db.modifyTable id fun _ => t }, error := some e }

/-- Links the foreign keys of one table. -/
def linkTable (r : Resolver) (s : Resolution) (id : TableId) : Walk Resolution :=
  match s.db.linkTable r.check id with
  | (db, .ok outcome) => { state := ⟨db, s.report.addLinked outcome⟩ }
  | (db, .error e) => { state := { s with db }, error := some e }

/-- The first phase: finalizes the tables in declaration order. -/
def finalize (r : Resolver) (s : Resolution) : Walk Resolution :=
  Walk.along r.finalizeTable s s.db.tableIds

/-- The second phase: links the tables in declaration order. -/
def link (r : Resolver) (s : Resolution) : Walk Resolution :=
  Walk.along r.linkTable s s.db.tableIds

/-- Both phases, with a new report. What was changed before an error stays. -/
def resolve (r : Resolver) (timestamp : String) (db : Database) :
    Database × Except SchemaError Report :=
  let w := (r.finalize ⟨db, { timestamp }⟩).andThen r.link
  (w.state.db, match w.error with
    | none => .ok w.state.report
    | some e => .error e)

end Resolver

end RelSchema
