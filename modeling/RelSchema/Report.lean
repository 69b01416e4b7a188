import RelSchema.Diagnostic
import RelSchema.Json.Free
import RelSchema.Json.Printer
import RelSchema.Json.Reader

/-!
# Reports

The versioned account of a run: what was counted, the diagnostics in the order they arose, and
optional free-form metadata. A report is written as JSON in lines and read back from JSON.
-/

namespace RelSchema

/-- The version of the report's form. -/
structure ReportVersion where
  major : Nat
  minor : Nat
deriving DecidableEq, Repr

namespace ReportVersion

def current : ReportVersion := ⟨1, 0⟩

def display (v : ReportVersion) : String := toString v.major ++ "." ++ toString v.minor

def toJson (v : ReportVersion) : Json :=
  .object [("major", .ofNat v.major), ("minor", .ofNat v.minor)]

def ofJson? (j : Json) : Option ReportVersion := do
  let r ← j.record? ["major", "minor"]
  some { major := ← r.required "major" (Json.nat? 32), minor := ← r.required "minor" (Json.nat? 32) }

end ReportVersion

/-- What a run counted. -/
structure ReportSummary where
  total : Nat := 0
  errors : Nat := 0
  warnings : Nat := 0
  info : Nat := 0
  tablesResolved : Nat := 0
  foreignKeysLinked : Nat := 0
  namesAssigned : Nat := 0
  indicesSynthesized : Nat := 0
deriving DecidableEq, Repr, Inhabited

namespace ReportSummary

/-- Counts a diagnostic of this severity. -/
def count (s : ReportSummary) (severity : Severity) : ReportSummary :=
  let s := { s with total := s.total + 1 }
  match severity with
  | .error => { s with errors := s.errors + 1 }
  | .warn => { s with warnings := s.warnings + 1 }
  | .info => { s with info := s.info + 1 }

def toJson (s : ReportSummary) : Json :=
  .object [("total", .ofNat s.total), ("errors", .ofNat s.errors), ("warnings", .ofNat s.warnings),
    ("info", .ofNat s.info), ("tables_resolved", .ofNat s.tablesResolved),
    ("foreign_keys_linked", .ofNat s.foreignKeysLinked), ("names_assigned", .ofNat s.namesAssigned),
    ("indices_synthesized", .ofNat s.indicesSynthesized)]

def ofJson? (j : Json) : Option ReportSummary := do
  let r ← j.record? ["total", "errors", "warnings", "info", "tables_resolved",
    "foreign_keys_linked", "names_assigned", "indices_synthesized"]
  some {
    total := ← r.required "total" (Json.nat? 64)
    errors := ← r.required "errors" (Json.nat? 64)
    warnings := ← r.required "warnings" (Json.nat? 64)
    info := ← r.required "info" (Json.nat? 64)
    tablesResolved := ← r.required "tables_resolved" (Json.nat? 64)
    foreignKeysLinked := ← r.required "foreign_keys_linked" (Json.nat? 64)
    namesAssigned := ← r.required "names_assigned" (Json.nat? 64)
    indicesSynthesized := ← r.required "indices_synthesized" (Json.nat? 64) }

end ReportSummary

structure Report where
  version : ReportVersion := .current
  timestamp : String
  summary : ReportSummary := {}
  diagnostics : List Diagnostic := []
  metadata : Option Json := none

namespace Report

/-- Appends a diagnostic and counts it. -/
def add (r : Report) (d : Diagnostic) : Report :=
  { r with summary := r.summary.count d.severity, diagnostics := r.diagnostics ++ [d] }

def addAll (r : Report) (ds : List Diagnostic) : Report := ds.foldl add r

/-- The report of these diagnostics and nothing else. -/
def ofDiagnostics (timestamp : String) (ds : List Diagnostic) : Report :=
  addAll { timestamp } ds

def hasErrors (r : Report) : Bool := decide (0 < r.summary.errors)

def hasWarnings (r : Report) : Bool := decide (0 < r.summary.warnings)

/-- Metadata is left out when absent. -/
def toJson (r : Report) : Json :=
  .object ([("version", r.version.toJson), ("timestamp", .string r.timestamp),
    ("summary", r.summary.toJson), ("diagnostics", .array (r.diagnostics.map Diagnostic.toJson))] ++
    (r.metadata.map fun m => ("metadata", m)).toList)

def ofJson? (j : Json) : Option Report := do
  let r ← j.record? ["version", "timestamp", "summary", "diagnostics", "metadata"]
  some {
    version := ← r.required "version" ReportVersion.ofJson?
    timestamp := ← r.required "timestamp" Json.string?
    summary := ← r.required "summary" ReportSummary.ofJson?
    diagnostics := ← r.required "diagnostics" (Json.list? Diagnostic.ofJson?)
    metadata := ← r.optional "metadata" (Json.free? (Json.maxDepth - 1)) }

/-- The report as a text. -/
def render (r : Report) : String := r.toJson.pretty

/-- The report that a text holds. -/
def parse? (text : String) : Option Report := (Json.parse? text).bind ofJson?

end Report

end RelSchema
