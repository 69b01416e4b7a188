import RelSchema.Proofs.JsonText
import RelSchema.Report

/-!
# Reading a written report back

A report without metadata survives being written and read: the text of `Report.render` is read as
the same report. Each record is decoded from the value that it is written as. What is left out when
absent is found missing, what is written as null when absent is found null, and both read as absent.
Of the values in a report only the numbers are bounded, by the width of the field each stands in.
-/

namespace RelSchema

/-! ## Fields of a record -/

namespace Json

/-- An object whose keys are all different is a record, with the field of each name under it. -/
theorem record?_object (fields : List String) {members : List (String × Json)}
    (h : (members.map Prod.fst).Nodup) :
    record? fields (.object members) = some ⟨false, fun name => members.lookup name⟩ := by
  have hcount : ∀ name, members.countP (·.1 == name) ≤ 1 := by
    intro name
    have hle := List.nodup_iff_count.1 h name
    rwa [List.count, List.countP_map] at hle
  simp [record?, hcount]

namespace Record

variable {α : Type} {r : Record} {name : String} (encode : α → Json) {decode : Json → Option α}

theorem required_eq {a : α} (hfield : r.field? name = some (encode a))
    (hdecode : decode (encode a) = some a) : r.required name decode = some a := by
  rw [required, hfield, Option.bind_some, hdecode]

theorem optional_eq_some {a : α} (hfield : r.field? name = some (encode a))
    (hencode : encode a ≠ null) (hdecode : decode (encode a) = some a) :
    r.optional name decode = some (some a) := by
  unfold optional
  rw [hfield]
  split
  · contradiction
  · rename_i hnull
    exact absurd (Option.some.inj hnull) hencode
  · rename_i heq
    rw [← Option.some.inj heq, hdecode, Option.map_some]

theorem optional_missing (hnames : r.positional = false) (hfield : r.field? name = none) :
    r.optional name decode = some none := by
  simp only [optional, hfield, hnames, Bool.false_eq_true, if_false]

/-- A field that is left out when absent. -/
theorem optional_of_map {a : Option α} (hnames : r.positional = false)
    (hfield : r.field? name = a.map encode) (hencode : ∀ a, encode a ≠ null)
    (hdecode : ∀ a, decode (encode a) = some a) : r.optional name decode = some a := by
  cases a with
  | none => exact optional_missing hnames hfield
  | some a => exact optional_eq_some encode hfield (hencode a) (hdecode a)

/-- A field that is written as null when absent. -/
theorem optional_of_ofOption {a : Option α}
    (hfield : r.field? name = some (ofOption encode a)) (hencode : ∀ a, encode a ≠ null)
    (hdecode : ∀ a, decode (encode a) = some a) : r.optional name decode = some a := by
  cases a with
  | none =>
    rw [ofOption] at hfield
    simp only [optional, hfield]
  | some a => exact optional_eq_some encode hfield (hencode a) (hdecode a)

theorem required_string {s : String} (hfield : r.field? name = some (.string s)) :
    r.required name string? = some s :=
  required_eq .string hfield rfl

theorem required_label {label : α → String} {ofLabel? : String → Option α} {a : α}
    (hlabel : ofLabel? (label a) = some a) (hfield : r.field? name = some (.string (label a))) :
    r.required name (choice? ofLabel?) = some a :=
  required_eq (fun a => .string (label a)) hfield hlabel

/-- A number that fits its field. -/
theorem required_nat {bits n : Nat} (h : n < Nat.pow 2 bits)
    (hfield : r.field? name = some (.ofNat n)) : r.required name (nat? bits) = some n := by
  have hnat : (Number.ofNat n).toNat? = some n := rfl
  refine required_eq .ofNat hfield ?_
  rw [ofNat, nat?, hnat, Option.bind_some, if_pos h]

theorem required_list (as : List α) (hfield : r.field? name = some (.array (as.map encode)))
    (hdecode : ∀ a ∈ as, decode (encode a) = some a) : r.required name (list? decode) = some as :=
  required_eq (fun as : List α => .array (as.map encode)) hfield (mapM_map_eq_some encode hdecode)

end Record

theorem faithful_ofNat (n : Nat) : (ofNat n).Faithful := .number (by simp [Number.ofNat])

end Json

/-! ## Locations and diagnostics -/

namespace Location

theorem ofJson?_toJson (l : Location) : ofJson? l.toJson = some l := by
  have hkeys : ((("table", Json.string l.table) ::
      ((l.constraint.map fun c => ("constraint", Json.string c)).toList ++
        (l.column.map fun c => ("column", Json.string c)).toList)).map Prod.fst).Nodup := by
    cases l.constraint <;> cases l.column <;> simp
  have hnull : ∀ s, Json.string s ≠ .null := by simp
  unfold ofJson? toJson
  rw [Json.record?_object _ hkeys, Option.bind_eq_bind, Option.bind_some,
    Json.Record.required_string (s := l.table) (by simp),
    Json.Record.optional_of_map .string (a := l.constraint) rfl ?_ hnull fun _ => rfl,
    Json.Record.optional_of_map .string (a := l.column) rfl ?_ hnull fun _ => rfl]
  · rfl
  · cases l.constraint <;> cases l.column <;> simp [KeyMap.lookup_cons_eq]
  · cases l.constraint <;> cases l.column <;> simp [KeyMap.lookup_cons_eq]

theorem faithful_toJson (l : Location) : l.toJson.Faithful := by
  refine .object fun m hm => ?_
  simp only [List.mem_cons, List.mem_append, Option.mem_toList, Option.map_eq_some_iff] at hm
  obtain rfl | ⟨c, -, rfl⟩ | ⟨c, -, rfl⟩ := hm <;> exact .string _

end Location

namespace Diagnostic

theorem ofJson?_toJson (d : Diagnostic) : ofJson? d.toJson = some d := by
  unfold ofJson? toJson
  rw [Json.record?_object _ (by simp), Option.bind_eq_bind, Option.bind_some,
    Json.Record.required_label d.code.ofLabel?_label (by simp),
    Json.Record.required_label d.severity.ofLabel?_label (by simp [KeyMap.lookup_cons_eq]),
    Json.Record.required_string (s := d.message) (by simp [KeyMap.lookup_cons_eq]),
    Json.Record.optional_of_ofOption Location.toJson (a := d.location) (by simp [KeyMap.lookup_cons_eq])
      (by simp [Location.toJson]) Location.ofJson?_toJson]
  rfl

theorem faithful_toJson (d : Diagnostic) : d.toJson.Faithful := by
  refine .object fun m hm => ?_
  simp only [List.mem_cons, List.not_mem_nil, or_false] at hm
  obtain rfl | rfl | rfl | rfl := hm
  · exact .string _
  · exact .string _
  · exact .string _
  · cases d.location with
    | none => exact .null
    | some l => exact l.faithful_toJson

end Diagnostic

/-! ## Versions and summaries -/

/-- The numbers of a version fit their fields. -/
structure ReportVersion.Fits (v : ReportVersion) : Prop where
  major : v.major < Nat.pow 2 32
  minor : v.minor < Nat.pow 2 32

/-- The counts of a summary fit their fields. -/
structure ReportSummary.Fits (s : ReportSummary) : Prop where
  total : s.total < Nat.pow 2 64
  errors : s.errors < Nat.pow 2 64
  warnings : s.warnings < Nat.pow 2 64
  info : s.info < Nat.pow 2 64
  tablesResolved : s.tablesResolved < Nat.pow 2 64
  foreignKeysLinked : s.foreignKeysLinked < Nat.pow 2 64
  namesAssigned : s.namesAssigned < Nat.pow 2 64
  indicesSynthesized : s.indicesSynthesized < Nat.pow 2 64

theorem ReportVersion.ofJson?_toJson {v : ReportVersion} (h : v.Fits) :
    ofJson? v.toJson = some v := by
  unfold ofJson? toJson
  rw [Json.record?_object _ (by simp), Option.bind_eq_bind, Option.bind_some,
    Json.Record.required_nat h.major (by simp),
    Json.Record.required_nat h.minor (by simp [KeyMap.lookup_cons_eq])]
  rfl

theorem ReportSummary.ofJson?_toJson {s : ReportSummary} (h : s.Fits) :
    ofJson? s.toJson = some s := by
  unfold ofJson? toJson
  rw [Json.record?_object _ (by simp), Option.bind_eq_bind, Option.bind_some,
    Json.Record.required_nat h.total (by simp),
    Json.Record.required_nat h.errors (by simp [KeyMap.lookup_cons_eq]),
    Json.Record.required_nat h.warnings (by simp [KeyMap.lookup_cons_eq]),
    Json.Record.required_nat h.info (by simp [KeyMap.lookup_cons_eq]),
    Json.Record.required_nat h.tablesResolved (by simp [KeyMap.lookup_cons_eq]),
    Json.Record.required_nat h.foreignKeysLinked (by simp [KeyMap.lookup_cons_eq]),
    Json.Record.required_nat h.namesAssigned (by simp [KeyMap.lookup_cons_eq]),
    Json.Record.required_nat h.indicesSynthesized (by simp [KeyMap.lookup_cons_eq])]
  rfl

theorem ReportVersion.faithful_toJson (v : ReportVersion) : v.toJson.Faithful := by
  refine .object fun m hm => ?_
  simp only [List.mem_cons, List.not_mem_nil, or_false] at hm
  obtain rfl | rfl := hm <;> exact Json.faithful_ofNat _

theorem ReportSummary.faithful_toJson (s : ReportSummary) : s.toJson.Faithful := by
  refine .object fun m hm => ?_
  simp only [List.mem_cons, List.not_mem_nil, or_false] at hm
  rcases hm with rfl | rfl | rfl | rfl | rfl | rfl | rfl | rfl <;> exact Json.faithful_ofNat _

/-! ## Reports -/

namespace Report

/-- The numbers of a report fit their fields. -/
structure Fits (r : Report) : Prop where
  version : r.version.Fits
  summary : r.summary.Fits

theorem ofJson?_toJson {r : Report} (hmetadata : r.metadata = none) (h : r.Fits) :
    ofJson? r.toJson = some r := by
  obtain ⟨version, timestamp, summary, diagnostics, metadata⟩ := r
  obtain rfl : metadata = none := hmetadata
  unfold ofJson? toJson
  rw [Option.map_none, Option.toList_none, List.append_nil, Json.record?_object _ (by simp),
    Option.bind_eq_bind, Option.bind_some,
    Json.Record.required_eq ReportVersion.toJson (by simp) (ReportVersion.ofJson?_toJson h.version),
    Json.Record.required_string (s := timestamp) (by simp [KeyMap.lookup_cons_eq]),
    Json.Record.required_eq ReportSummary.toJson (by simp [KeyMap.lookup_cons_eq])
      (ReportSummary.ofJson?_toJson h.summary),
    Json.Record.required_list Diagnostic.toJson diagnostics (by simp [KeyMap.lookup_cons_eq])
      fun d _ => d.ofJson?_toJson,
    Json.Record.optional_missing rfl (by simp [KeyMap.lookup_cons_eq])]
  rfl

theorem faithful_toJson {r : Report} (hmetadata : r.metadata = none) : r.toJson.Faithful := by
  refine .object fun m hm => ?_
  rw [hmetadata, Option.map_none, Option.toList_none, List.append_nil] at hm
  simp only [List.mem_cons, List.not_mem_nil, or_false] at hm
  obtain rfl | rfl | rfl | rfl := hm
  · exact r.version.faithful_toJson
  · exact .string _
  · exact r.summary.faithful_toJson
  · refine .array fun j hj => ?_
    obtain ⟨d, -, rfl⟩ := List.mem_map.1 hj
    exact d.faithful_toJson

/-- **A written report reads back.** The text of a report without metadata, whatever its texts and
diagnostics, is read as that report; the numbers only have to fit the fields that they are read
into. -/
theorem parse?_render {r : Report} (hmetadata : r.metadata = none) (h : r.Fits) :
    parse? r.render = some r := by
  rw [parse?, render, Json.parse?_pretty (faithful_toJson hmetadata), Option.bind_some]
  exact ofJson?_toJson hmetadata h

end Report

/-- A report whose messages need every kind of escape, with a diagnostic about a constraint, one
about a column and one about no place. -/
def auditReport : Report where
  timestamp := "2024-05-01T12:00:00Z"
  summary :=
    { total := 3, errors := 1, warnings := 1, info := 1, namesAssigned := 18446744073709551615 }
  diagnostics := [
    ⟨.refMissingTable, .error, "no \"Author\" in C:\\schema\n", some (.ofConstraint "Book" "fk")⟩,
    ⟨.info, .info, "\x01\t\x7fé", some { table := "Book", column := some "" }⟩,
    ⟨.warning, .warn, "", none⟩]

theorem auditReport_fits : auditReport.Fits where
  version := by constructor <;> decide
  summary := by constructor <;> decide

theorem parse?_render_auditReport :
    auditReport.metadata = none ∧ auditReport.Fits ∧
      Report.parse? auditReport.render = some auditReport :=
  ⟨rfl, auditReport_fits, Report.parse?_render rfl auditReport_fits⟩

end RelSchema
