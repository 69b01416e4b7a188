import RelSchema.Json.Record

/-!
# Diagnostics

Findings about a schema, each with a stable code, a severity, a message and the place it is about.
-/

namespace RelSchema

/-- What a diagnostic is about. The codes are stable: codes are added but never renamed. -/
inductive DiagnosticCode where
  | refMissingTable
  | refMissingLocalColumn
  | refMissingForeignColumn
  | indexSynthesized
  | info
  | warning
deriving DecidableEq, Repr

namespace DiagnosticCode

def all : List DiagnosticCode :=
  [refMissingTable, refMissingLocalColumn, refMissingForeignColumn, indexSynthesized, info, warning]

def label : DiagnosticCode → String
  | refMissingTable => "REF_MISSING_TABLE"
  | refMissingLocalColumn => "REF_MISSING_LOCAL_COLUMN"
  | refMissingForeignColumn => "REF_MISSING_FOREIGN_COLUMN"
  | indexSynthesized => "INDEX_SYNTHESIZED"
  | info => "INFO"
  | warning => "WARNING"

def ofLabel? (s : String) : Option DiagnosticCode := all.find? (·.label == s)

end DiagnosticCode

/-- How serious a diagnostic is. -/
inductive Severity where
  | info
  /-- The schema was resolved, with something left out. -/
  | warn
  | error
deriving DecidableEq, Repr

namespace Severity

def all : List Severity := [info, warn, error]

def label : Severity → String
  | info => "info"
  | warn => "warn"
  | error => "error"

def ofLabel? (s : String) : Option Severity := all.find? (·.label == s)

/-- Severities by increasing seriousness. -/
def rank : Severity → Nat
  | info => 0
  | warn => 1
  | error => 2

instance : LE Severity := ⟨fun a b => a.rank ≤ b.rank⟩

instance (a b : Severity) : Decidable (a ≤ b) := inferInstanceAs (Decidable (a.rank ≤ b.rank))

/-- From the least to the most serious. -/
def sort (severities : List Severity) : List Severity :=
  severities.mergeSort fun a b => decide (a ≤ b)

/-- The most serious one. -/
def max? : List Severity → Option Severity
  | [] => none
  | s :: rest => some (rest.foldl (fun a b => if a ≤ b then b else a) s)

end Severity

/-- A table, one of its constraints, or a column. -/
structure Location where
  table : String
  constraint : Option String := none
  column : Option String := none
deriving DecidableEq, Repr, Inhabited

namespace Location

/-- The place in words: `table[constraint].column`. -/
def display (l : Location) : String :=
  l.table ++ (l.constraint.elim "" fun c => "[" ++ c ++ "]") ++
    (l.column.elim "" fun c => "." ++ c)

/-- A constraint of a table. -/
def ofConstraint (table constraint : String) : Location := { table, constraint := some constraint }

/-- The place narrowed to a column. -/
def withColumn (l : Location) (column : String) : Location := { l with column := some column }

/-- The parts that are absent are left out. -/
def toJson (l : Location) : Json :=
  .object (("table", .string l.table) ::
    ((l.constraint.map fun c => ("constraint", Json.string c)).toList ++
      (l.column.map fun c => ("column", Json.string c)).toList))

def ofJson? (j : Json) : Option Location := do
  let r ← j.record? ["table", "constraint", "column"]
  some {
    table := ← r.required "table" Json.string?
    constraint := ← r.optional "constraint" Json.string?
    column := ← r.optional "column" Json.string? }

end Location

structure Diagnostic where
  code : DiagnosticCode
  severity : Severity
  message : String
  location : Option Location := none
deriving DecidableEq, Repr

namespace Diagnostic

def toJson (d : Diagnostic) : Json :=
  .object [("code", .string d.code.label), ("severity", .string d.severity.label),
    ("message", .string d.message), ("location", .ofOption Location.toJson d.location)]

def ofJson? (j : Json) : Option Diagnostic := do
  let r ← j.record? ["code", "severity", "message", "location"]
  some {
    code := ← r.required "code" (Json.choice? DiagnosticCode.ofLabel?)
    severity := ← r.required "severity" (Json.choice? Severity.ofLabel?)
    message := ← r.required "message" Json.string?
    location := ← r.optional "location" Location.ofJson? }

end Diagnostic

end RelSchema
