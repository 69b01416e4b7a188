import Mathlib.Algebra.BigOperators.Group.List.Basic
import RelSchema.Proofs.Idempotence
import RelSchema.Proofs.LinkVisits

/-!
# The report of a resolve

Counts come together on two paths: work is counted where it is done, and diagnostics are counted by
their severity when they are noted. A report keeps the second kind right by itself
(`Report.Tallied`). In a resolve the diagnostics are the warnings of missing references and the
notes of added indices and nothing else, so the two kinds agree, and the counts are those of the
database that was resolved (`Resolver.accountsFor_resolve`).
-/

namespace RelSchema

/-! ## Counting diagnostics -/

/-- Whether the code is about something that a foreign key names and the schema lacks. -/
def DiagnosticCode.isReference : DiagnosticCode → Bool
  | refMissingTable | refMissingLocalColumn | refMissingForeignColumn => true
  | _ => false

/-- A warning of a missing reference, or a note of an added index. -/
inductive Diagnostic.FromRun (d : Diagnostic) : Prop where
  | reference : d.severity = .warn → d.code.isReference = true → FromRun d
  | index : d.severity = .info → d.code = .indexSynthesized → FromRun d

namespace Report

/-- Whether the summary counts the diagnostics by their severity. -/
structure Tallied (report : Report) : Prop where
  total : report.summary.total = report.diagnostics.length
  errors : report.summary.errors = report.diagnostics.countP (·.severity = .error)
  warnings : report.summary.warnings = report.diagnostics.countP (·.severity = .warn)
  info : report.summary.info = report.diagnostics.countP (·.severity = .info)

variable {report : Report}

theorem tallied_empty (timestamp : String) : Tallied { timestamp } := ⟨rfl, rfl, rfl, rfl⟩

theorem Tallied.add (h : report.Tallied) (d : Diagnostic) : (report.add d).Tallied := by
  obtain ⟨htotal, herrors, hwarnings, hinfo⟩ := h
  obtain ⟨code, severity, message, location⟩ := d
  cases severity <;> constructor <;>
    simp [Report.add, ReportSummary.count, List.countP_append, htotal, herrors, hwarnings, hinfo]

/-- What keeps the counts right in one step keeps them right along a list. -/
theorem Tallied.foldl {β : Type} {f : Report → β → Report}
    (hf : ∀ {report b}, report.Tallied → (f report b).Tallied) (h : report.Tallied) (l : List β) :
    (l.foldl f report).Tallied := by
  induction l generalizing report with
  | nil => exact h
  | cons b rest ih => exact ih (hf h)

theorem Tallied.addAll (h : report.Tallied) (ds : List Diagnostic) :
    (report.addAll ds).Tallied :=
  h.foldl (fun h => h.add _) ds

theorem Tallied.addSynthesized (h : report.Tallied) (entry : SynthesizedIndex) :
    (report.addSynthesized entry).Tallied := by
  have hcounted : Tallied { report with summary := { report.summary with
      indicesSynthesized := report.summary.indicesSynthesized + 1 } } :=
    ⟨h.total, h.errors, h.warnings, h.info⟩
  exact hcounted.add _

theorem Tallied.addFinalized (h : report.Tallied) (outcome : FinalizeOutcome) :
    (report.addFinalized outcome).Tallied := by
  have hcounted : Tallied { report with summary := { report.summary with
      tablesResolved := report.summary.tablesResolved + 1
      namesAssigned := report.summary.namesAssigned + outcome.names.length } } :=
    ⟨h.total, h.errors, h.warnings, h.info⟩
  exact hcounted.foldl (fun h => h.addSynthesized _) _

theorem Tallied.addLinked (h : report.Tallied) (outcome : LinkOutcome) :
    (report.addLinked outcome).Tallied := by
  have hcounted : Tallied { report with summary := { report.summary with
      foreignKeysLinked := report.summary.foreignKeysLinked + outcome.foreignKeys } } :=
    ⟨h.total, h.errors, h.warnings, h.info⟩
  exact (hcounted.addAll _).foldl (fun h => h.addSynthesized _) _

/-- Each diagnostic has one of the three severities. -/
theorem Tallied.parts (h : report.Tallied) : report.summary.total =
    report.summary.errors + report.summary.warnings + report.summary.info := by
  have hlength : ∀ ds : List Diagnostic, ds.length = ds.countP (·.severity = .error) +
      ds.countP (·.severity = .warn) + ds.countP (·.severity = .info) := by
    intro ds
    induction ds with
    | nil => rfl
    | cons d rest ih =>
      cases hd : d.severity <;> simp [hd, ih] <;> omega
  rw [h.total, h.errors, h.warnings, h.info, hlength]

/-! ## The diagnostics of a run -/

/-- What appends diagnostics in one step appends them along a list. -/
theorem diagnostics_foldl {β : Type} {f : Report → β → Report} {g : β → List Diagnostic}
    (hf : ∀ report b, (f report b).diagnostics = report.diagnostics ++ g b) (report : Report)
    (l : List β) : (l.foldl f report).diagnostics = report.diagnostics ++ l.flatMap g := by
  induction l generalizing report with
  | nil => exact (List.append_nil _).symm
  | cons b rest ih => rw [List.foldl_cons, ih, hf, List.flatMap_cons, List.append_assoc]

theorem diagnostics_addAll (report : Report) (ds : List Diagnostic) :
    (report.addAll ds).diagnostics = report.diagnostics ++ ds := by
  have hone : ∀ (report : Report) (d : Diagnostic),
      (report.add d).diagnostics = report.diagnostics ++ [d] := fun _ _ => rfl
  rw [addAll, diagnostics_foldl hone, List.flatMap_singleton']

theorem diagnostics_addSynthesized (report : Report) (entry : SynthesizedIndex) :
    (report.addSynthesized entry).diagnostics = report.diagnostics ++ [entry.note] := by
  have hnote : entry.note =
      { code := .indexSynthesized
        severity := .info
        message := "Added index '" ++ entry.name ++ "' on (" ++
          ", ".intercalate entry.columns ++ ")"
        location := some (.ofConstraint entry.table entry.name) } := by
    rw [SynthesizedIndex.note, Index.note, SynthesizedIndex.columnNames_index]
    rfl
  rw [hnote]
  rfl

theorem diagnostics_foldl_addSynthesized (report : Report) (entries : List SynthesizedIndex) :
    (entries.foldl addSynthesized report).diagnostics =
      report.diagnostics ++ entries.map (·.note) := by
  rw [diagnostics_foldl diagnostics_addSynthesized, List.map_eq_flatMap]

theorem diagnostics_addFinalized (report : Report) (outcome : FinalizeOutcome) :
    (report.addFinalized outcome).diagnostics =
      report.diagnostics ++ outcome.heavyIndices.map (·.note) := by
  rw [addFinalized, diagnostics_foldl_addSynthesized]

theorem diagnostics_addLinked (report : Report) (outcome : LinkOutcome) :
    (report.addLinked outcome).diagnostics =
      report.diagnostics ++ (outcome.diagnostics ++ outcome.synthesized.map (·.note)) := by
  rw [addLinked, diagnostics_foldl_addSynthesized, diagnostics_addAll, List.append_assoc]

/-- The notes among what linking gives, where it warns of missing references only. -/
theorem filter_notes_linked {outcomes : List LinkOutcome}
    (h : ∀ outcome ∈ outcomes, ∀ d ∈ outcome.diagnostics, d.code.isReference = true) :
    (outcomes.flatMap fun outcome => outcome.diagnostics ++
        outcome.synthesized.map (·.note)).filter (·.code = .indexSynthesized) =
      (outcomes.flatMap (·.synthesized)).map (·.note) := by
  induction outcomes with
  | nil => rfl
  | cons outcome rest ih =>
    rw [List.forall_mem_cons] at h
    have hnone : outcome.diagnostics.filter (·.code = .indexSynthesized) = [] := by
      rw [List.filter_eq_nil_iff]
      intro d hd hcode
      have hreference := h.1 d hd
      rw [of_decide_eq_true hcode] at hreference
      cases hreference
    have hall : (outcome.synthesized.map (·.note)).filter (·.code = .indexSynthesized) =
        outcome.synthesized.map (·.note) := by
      rw [List.filter_eq_self]
      exact List.forall_mem_map.2 fun _ _ => rfl
    rw [List.flatMap_cons, List.filter_append, List.filter_append, hnone, hall, ih h.2,
      List.flatMap_cons, List.map_append, List.nil_append]

/-- The report of a run in which finalizing comes to `outcomes` and linking to `calls`. -/
def ofRun (timestamp : String) (outcomes : List FinalizeOutcome) (calls : List LinkOutcome) :
    Report :=
  calls.foldl addLinked (outcomes.foldl addFinalized { timestamp })

section Run

variable (timestamp : String) (outcomes : List FinalizeOutcome) {calls : List LinkOutcome}

theorem tallied_ofRun (calls : List LinkOutcome) : (ofRun timestamp outcomes calls).Tallied :=
  ((tallied_empty timestamp).foldl (fun h => h.addFinalized _) outcomes).foldl
    (fun h => h.addLinked _) calls

theorem work_ofRun (calls : List LinkOutcome) : (ofRun timestamp outcomes calls).summary.work =
    ({} : ReportSummary).work.more outcomes.length (calls.map (·.foreignKeys)).sum
      (outcomes.flatMap (·.names)).length ((outcomes.flatMap (·.heavyIndices)).length +
        (calls.flatMap (·.synthesized)).length) := by
  rw [ofRun, work_foldl_addLinked, work_foldl_addFinalized, ReportSummary.more_more, Nat.zero_add,
    Nat.add_zero, Nat.add_zero]

theorem diagnostics_ofRun (calls : List LinkOutcome) :
    (ofRun timestamp outcomes calls).diagnostics =
      (outcomes.flatMap (·.heavyIndices)).map (·.note) ++
        calls.flatMap fun call => call.diagnostics ++ call.synthesized.map (·.note) := by
  rw [ofRun, diagnostics_foldl diagnostics_addLinked, diagnostics_foldl diagnostics_addFinalized,
    List.map_flatMap]
  rfl

variable (h : ∀ call ∈ calls, ∀ d ∈ call.diagnostics,
  d.severity = .warn ∧ d.code.isReference = true)

include h

theorem fromRun_ofRun : ∀ d ∈ (ofRun timestamp outcomes calls).diagnostics, d.FromRun := by
  intro d hd
  rw [diagnostics_ofRun, List.mem_append, List.mem_flatMap] at hd
  rcases hd with hd | ⟨call, hcall, hd⟩
  · obtain ⟨entry, -, rfl⟩ := List.mem_map.1 hd
    exact .index rfl rfl
  · rcases List.mem_append.1 hd with hd | hd
    · exact .reference (h call hcall d hd).1 (h call hcall d hd).2
    · obtain ⟨entry, -, rfl⟩ := List.mem_map.1 hd
      exact .index rfl rfl

/-- The notes are those of the indices over suffixes, then of the indices behind keys. -/
theorem notes_ofRun :
    (ofRun timestamp outcomes calls).diagnostics.filter (·.code = .indexSynthesized) =
      (outcomes.flatMap (·.heavyIndices) ++ calls.flatMap (·.synthesized)).map (·.note) := by
  have hall : ∀ entries : List SynthesizedIndex, (entries.map (·.note)).filter
      (·.code = .indexSynthesized) = entries.map (·.note) := by
    intro entries
    rw [List.filter_eq_self]
    exact List.forall_mem_map.2 fun _ _ => rfl
  rw [diagnostics_ofRun, List.filter_append, hall,
    filter_notes_linked fun call hcall d hd => (h call hcall d hd).2, List.map_append]

/-- The added indices are counted where they are added, and again where they are noted. -/
theorem indicesSynthesized_ofRun : (ofRun timestamp outcomes calls).summary.indicesSynthesized =
    (ofRun timestamp outcomes calls).diagnostics.countP (·.code = .indexSynthesized) := by
  rw [List.countP_eq_length_filter, notes_ofRun timestamp outcomes h,
    ReportSummary.indicesSynthesized_of_work (work_ofRun timestamp outcomes calls),
    List.length_map, List.length_append]
  exact Nat.zero_add _

/-- Severities and codes say the same. -/
theorem severities_ofRun : (ofRun timestamp outcomes calls).summary.errors = 0 ∧
    (ofRun timestamp outcomes calls).summary.warnings =
      (ofRun timestamp outcomes calls).diagnostics.countP (·.code.isReference) ∧
    (ofRun timestamp outcomes calls).summary.info =
      (ofRun timestamp outcomes calls).diagnostics.countP (·.code = .indexSynthesized) := by
  have hfrom := fromRun_ofRun timestamp outcomes h
  have htally := tallied_ofRun timestamp outcomes calls
  refine ⟨?_, ?_, ?_⟩
  · rw [htally.errors, List.countP_eq_zero]
    intro d hd
    cases hfrom d hd with
    | reference hseverity _ => simp [hseverity]
    | index hseverity _ => simp [hseverity]
  · rw [htally.warnings]
    apply List.countP_congr
    intro d hd
    cases hfrom d hd with
    | reference hseverity hcode => simp [hseverity, hcode]
    | index hseverity hcode => simp [hseverity, hcode, DiagnosticCode.isReference]
  · rw [htally.info]
    apply List.countP_congr
    intro d hd
    cases hfrom d hd with
    | reference hseverity hcode =>
      have hne : d.code ≠ .indexSynthesized := by
        intro heq
        rw [heq] at hcode
        cases hcode
      simp [hseverity, hne]
    | index hseverity hcode => simp [hseverity, hcode]

end Run

end Report

theorem DanglingEnd.isReference_of_mem_missing {db : Database} {d : DanglingEnd}
    (h : d ∈ db.missing) : d.code.isReference = true := by
  obtain ⟨t, -, h⟩ := List.mem_flatMap.1 h
  obtain ⟨key, -, h⟩ := List.mem_flatMap.1 h
  have hlocals : ∀ columns : List String,
      d ∈ columns.map (DanglingEnd.missingLocalColumn t.name key) → d.code.isReference = true := by
    intro columns hd
    obtain ⟨column, -, rfl⟩ := List.mem_map.1 hd
    rfl
  unfold Table.missing at h
  split at h
  · rcases List.mem_cons.1 h with rfl | h
    · rfl
    · exact hlocals _ h
  · rcases List.mem_append.1 h with h | h
    · exact hlocals _ h
    · obtain ⟨column, -, rfl⟩ := List.mem_map.1 h
      rfl

/-! ## What finalizing the tables comes to -/

namespace Table

variable {t : Table}

/-- What finalizing the table comes to, with the built-in behaviors and the standard names. -/
def outcome (maxLength : Nat) (t : Table) : FinalizeOutcome :=
  (t.finalize .builtIn .standard maxLength).2.toOption.getD ⟨0, [], [], false⟩

/-- The visit of finalizing the table. -/
def finalizeVisit (maxLength : Nat) (t : Table) : TableVisit := ⟨t, t.finalized maxLength⟩

theorem outcome_of_known (h : BehaviorRegistry.Known t) (maxLength : Nat) :
    (t.finalize .builtIn .standard maxLength).2 = .ok (t.outcome maxLength) ∧
    (t.outcome maxLength).names.length =
      t.unnamedConstraints + (t.finalizeVisit maxLength).added.length ∧
    (t.outcome maxLength).heavyIndices.map (·.note) = (t.finalizeVisit maxLength).notes := by
  obtain ⟨columns, -, hfinalize⟩ := finalize_of_known h maxLength
  have houtcome : t.outcome maxLength =
      ((t.withColumns columns).complete t.behaviors.length .standard maxLength).2 := by
    rw [outcome, hfinalize]
    rfl
  have hafter : t.finalized maxLength =
      ((t.withColumns columns).complete t.behaviors.length .standard maxLength).1 := by
    rw [finalized, hfinalize]
  -- the columns that behaviors add do not count among the constraints
  have hadded : (t.finalizeVisit maxLength).added = (t.withColumns columns).addedIndices
      ((t.withColumns columns).complete t.behaviors.length .standard maxLength).1 := by
    rw [TableVisit.added, finalizeVisit, hafter]
    rfl
  have hname : (t.finalized maxLength).name = t.name :=
    (revises_finalize BehaviorRegistry.revising_builtIn t .standard maxLength).name
  refine ⟨?_, ?_, ?_⟩
  · rw [houtcome, hfinalize]
  · rw [houtcome, length_names_complete, hadded]
    rfl
  · have htable : ∀ entry ∈ (t.outcome maxLength).heavyIndices,
        entry.table = (t.finalized maxLength).name := by
      intro entry hentry
      rw [houtcome] at hentry
      exact (table_of_mem_heavyIndices hentry).trans hname.symm
    rw [map_note_eq htable, houtcome, ← addedIndices_complete, TableVisit.notes, hadded]
    rfl

end Table

namespace Database

variable {db : Database}

/-- The visits of a resolve: each table is finalized, and then the keys are linked. -/
def visits (db : Database) : List TableVisit :=
  db.tables.map (·.finalizeVisit db.platform.maxIdentifierLength) ++
    db.finalized.linkVisits db.finalized.allKeys

/-- Whether a visit finds a table of the resolved database in the course of the run, and leaves it
there: when the tables are finalized, or when a key is linked, with the keys before it and its own
ends linked already. -/
inductive Visited (db : Database) (v : TableVisit) : Prop where
  | finalizing (id : TableId) : db.table? id = some v.before →
      db.finalized.table? id = some v.after → Visited db v
  | linking (earlier later : List DeclaredKey) (k : DeclaredKey) (id : TableId) :
      db.finalized.allKeys = earlier ++ k :: later →
      ((earlier.foldl linkKey db.finalized).connected k).table? id = some v.before →
      ((earlier ++ [k]).foldl linkKey db.finalized).table? id = some v.after → Visited db v

theorem visited_of_mem_visits {v : TableVisit} (hv : v ∈ db.visits) : db.Visited v := by
  rcases List.mem_append.1 hv with hv | hv
  · obtain ⟨t, ht, rfl⟩ := List.mem_map.1 hv
    obtain ⟨place, hplace⟩ := List.mem_iff_getElem?.1 ht
    have hbefore : db.table? ⟨place⟩ = some t := hplace
    refine .finalizing ⟨place⟩ hbefore ?_
    rw [table?_finalized, hbefore]
    rfl
  · obtain ⟨earlier, k, later, hkeys, hv⟩ := exists_split_of_linkVisits hv
    obtain ⟨id, hbefore, hafter⟩ := table?_of_keyVisits hv
    refine .linking earlier later k id hkeys hbefore ?_
    rw [List.foldl_append]
    exact hafter

theorem filterMap_tableIds {β : Type} (db : Database) (f : Table → Option β) :
    (db.tableIds.filterMap fun id => (db.table? id).bind f) = db.tables.filterMap f := by
  rw [List.filterMap_eq_flatMap_toList, List.filterMap_eq_flatMap_toList, tableIds,
    List.flatMap_map, ← flatMap_range_getElem? db.tables]
  apply List.flatMap_congr
  intro place _
  show ((db.tables[place]?).bind f).toList = _
  cases db.tables[place]? <;> rfl

theorem foreignKeyCount_finalized (h : ∀ t ∈ db.tables, BehaviorRegistry.Known t) :
    db.finalized.foreignKeyCount = db.foreignKeyCount := by
  have hcount : ∀ db : Database,
      db.foreignKeyCount = (db.tables.map (·.foreignKeys.length)).sum := by
    intro db
    rw [foreignKeyCount, List.sum_eq_foldl, List.foldl_map]
  rw [hcount, hcount, finalized, tables_mapTables_const, List.map_map]
  apply congrArg List.sum
  apply List.map_congr_left
  intro t ht
  exact Table.length_foreignKeys_finalized (h t ht) _

end Database

namespace Resolver

variable {check : ReferenceCheck} {db db' : Database} {timestamp : String} {report : Report}

/-- Where no table is refused, the outcomes are those of the tables one by one. -/
theorem filterMap_outcome? (h : ∀ t ∈ db.tables, BehaviorRegistry.Known t) :
    db.tableIds.filterMap ((standard check).outcome? db) =
      db.tables.map (·.outcome db.platform.maxIdentifierLength) := by
  have hsome : ∀ t ∈ db.tables, ((standard check).finalizeAlone db.platform t).2.toOption =
      some (t.outcome db.platform.maxIdentifierLength) := by
    intro t ht
    have houtcome := (Table.outcome_of_known (h t ht) db.platform.maxIdentifierLength).1
    show (t.finalize .builtIn .standard _).2.toOption = _
    rw [houtcome]
    rfl
  rw [← List.filterMap_eq_map]
  exact (db.filterMap_tableIds _).trans (List.filterMap_congr hsome)

/-! ## The report of a resolve -/

/-- What the report of a resolve tells about the database that was resolved. -/
structure AccountsFor (db : Database) (report : Report) : Prop where
  tables : report.summary.tablesResolved = db.tables.length
  keys : report.summary.foreignKeysLinked = db.foreignKeyCount
  /-- One name for each constraint without one, and one for each index over a key suffix. -/
  names : report.summary.namesAssigned = (db.tables.map (·.unnamedConstraints)).sum +
    (db.tables.map fun t => (t.addedIndices
      (t.finalized db.platform.maxIdentifierLength)).length).sum
  errors : report.summary.errors = 0
  warnings : report.summary.warnings = report.diagnostics.countP (·.code.isReference)
  info : report.summary.info = report.summary.indicesSynthesized
  indices : report.summary.indicesSynthesized =
    report.diagnostics.countP (·.code = .indexSynthesized)
  total : report.summary.total = report.diagnostics.length
  parts : report.summary.total =
    report.summary.errors + report.summary.warnings + report.summary.info
  /-- The notes are those of the indices that the visits of the run added, in order. -/
  notes : report.diagnostics.filter (·.code = .indexSynthesized) = db.visits.flatMap (·.notes)
  /-- Each visit finds a table in the course of the run and leaves it there. -/
  visited : ∀ v ∈ db.visits, db.Visited v
  named : ∀ v ∈ db.visits, ∀ index ∈ v.added, index.name ≠ ""

/-- The added indices have names, in both phases. -/
theorem name_ne_empty_of_visits (h : ∀ t ∈ db.tables, BehaviorRegistry.Known t) :
    ∀ v ∈ db.visits, ∀ index ∈ v.added, index.name ≠ "" := by
  intro v hv index hindex
  rcases List.mem_append.1 hv with hv | hv
  · obtain ⟨t, ht, rfl⟩ := List.mem_map.1 hv
    have hfinished := Table.finished_finalized (h t ht) db.platform.maxIdentifierLength
    exact hfinished.named.indices index (List.mem_filter.1 hindex).1
  · exact Database.name_ne_empty_of_linkVisits hv hindex

/-- **The report of a resolve** is put together from what the tables come to, and then from what the
calls of linking come to. -/
theorem report_resolve (h : (standard check).resolve timestamp db = (db', .ok report)) :
    (∀ t ∈ db.tables, BehaviorRegistry.Known t) ∧
    (∃ middle, ((standard check).link ⟨db.finalized, middle⟩).error = none) ∧
    db' = db.finalized.allKeys.foldl Database.linkKey db.finalized ∧
    report = .ofRun timestamp (db.tables.map (·.outcome db.platform.maxIdentifierLength))
      (db.finalized.linkOutcomes check db.finalized.tableIds) := by
  obtain ⟨hfinalize, hlink, hstate⟩ := resolve_eq_ok_iff.1 h
  have hknown : ∀ t ∈ db.tables, BehaviorRegistry.Known t := error_finalize_standard_iff.1 hfinalize
  have hdb : ((standard check).finalize ⟨db, { timestamp }⟩).state.db = db.finalized :=
    db_finalize_standard hfinalize
  have hmiddle := report_finalize hfinalize
  rw [filterMap_outcome? hknown] at hmiddle
  have hreport := report_link hlink
  rw [hstate, hmiddle, hdb] at hreport
  have hlinked := db_link hlink
  rw [hstate, hdb] at hlinked
  refine ⟨hknown, ⟨((standard check).finalize ⟨db, { timestamp }⟩).state.report, ?_⟩,
    hlinked.trans (Database.foldl_linkKey _ _).symm, hreport⟩
  rw [← hdb]
  exact hlink

/-- The names that are assigned to the tables. -/
theorem length_names_outcomes (h : ∀ t ∈ db.tables, BehaviorRegistry.Known t) (maxLength : Nat) :
    ((db.tables.map (·.outcome maxLength)).flatMap (·.names)).length =
      (db.tables.map (·.unnamedConstraints)).sum +
        (db.tables.map fun t => (t.addedIndices (t.finalized maxLength)).length).sum := by
  rw [List.length_flatMap, List.map_map, ← List.sum_map_add]
  apply congrArg List.sum
  apply List.map_congr_left
  intro t ht
  exact (Table.outcome_of_known (h t ht) maxLength).2.1

/-- The notes of the indices over suffixes are those of the visits to the tables. -/
theorem notes_outcomes (h : ∀ t ∈ db.tables, BehaviorRegistry.Known t) (maxLength : Nat) :
    ((db.tables.map (·.outcome maxLength)).flatMap (·.heavyIndices)).map (·.note) =
      (db.tables.map (·.finalizeVisit maxLength)).flatMap (·.notes) := by
  rw [List.map_flatMap, List.flatMap_map, List.flatMap_map]
  apply List.flatMap_congr
  intro t ht
  exact (Table.outcome_of_known (h t ht) maxLength).2.2

/-- What linking warns of are missing references. -/
theorem reference_of_mem_linkOutcomes {r : Resolver} {s : Resolution}
    (h : (r.link s).error = none) :
    ∀ call ∈ s.db.linkOutcomes r.check s.db.tableIds, ∀ d ∈ call.diagnostics,
      d.severity = .warn ∧ d.code.isReference = true := by
  intro call hcall d hd
  have hmem := List.mem_flatMap.2 ⟨call, hcall, hd⟩
  rw [flatMap_diagnostics_linkOutcomes h] at hmem
  obtain ⟨missing, hmissing, rfl⟩ := List.mem_map.1 hmem
  exact ⟨rfl, DanglingEnd.isReference_of_mem_missing hmissing⟩

/-- **The report accounts for the run.** A resolve finalizes the tables and then links the keys one
after the other. The work that its report counts is that of the database that was resolved, the
diagnostics are the warnings of missing references and the notes of added indices, and the notes are
those of the indices that the visits of the run added, in order, each to a table as the run had left
it. -/
theorem accountsFor_resolve (h : (standard check).resolve timestamp db = (db', .ok report)) :
    db' = db.finalized.allKeys.foldl Database.linkKey db.finalized ∧ AccountsFor db report := by
  obtain ⟨hknown, ⟨middle, hlink⟩, hdb, rfl⟩ := report_resolve h
  obtain ⟨outcomes, houtcomes⟩ : ∃ outcomes, outcomes =
      db.tables.map (·.outcome db.platform.maxIdentifierLength) := ⟨_, rfl⟩
  obtain ⟨calls, hcalls⟩ : ∃ calls, calls =
      db.finalized.linkOutcomes check db.finalized.tableIds := ⟨_, rfl⟩
  have hreference := reference_of_mem_linkOutcomes hlink
  change ∀ call ∈ db.finalized.linkOutcomes check db.finalized.tableIds, _ at hreference
  rw [← houtcomes, ← hcalls]
  rw [← hcalls] at hreference
  have hwork := Report.work_ofRun timestamp outcomes calls
  have htally := Report.tallied_ofRun timestamp outcomes calls
  have hindices := Report.indicesSynthesized_ofRun timestamp outcomes hreference
  obtain ⟨herrors, hwarnings, hinfo⟩ := Report.severities_ofRun timestamp outcomes hreference
  refine ⟨hdb, ?_⟩
  constructor
  case tables =>
    rw [ReportSummary.tablesResolved_of_work hwork, houtcomes, List.length_map]
    exact Nat.zero_add _
  case keys =>
    have hkeys := sum_foreignKeys_linkOutcomes hlink
    rw [ReportSummary.foreignKeysLinked_of_work hwork, hcalls,
      ← Database.foreignKeyCount_finalized hknown]
    exact (Nat.zero_add _).trans hkeys
  case names =>
    rw [ReportSummary.namesAssigned_of_work hwork, houtcomes, length_names_outcomes hknown]
    exact Nat.zero_add _
  case errors => exact herrors
  case warnings => exact hwarnings
  case info => exact hinfo.trans hindices.symm
  case indices => exact hindices
  case total => exact htally.total
  case parts => exact htally.parts
  case notes =>
    have hlinked := notes_linkOutcomes hlink
    change ((db.finalized.linkOutcomes check db.finalized.tableIds).flatMap
      (·.synthesized)).map (·.note) = _ at hlinked
    rw [Report.notes_ofRun timestamp outcomes hreference, List.map_append, hcalls, houtcomes,
      hlinked, notes_outcomes hknown, Database.visits, List.flatMap_append]
  case visited => exact fun v hv => Database.visited_of_mem_visits hv
  case named => exact name_ne_empty_of_visits hknown

/-- Loans of copies. Nothing is named, the key of a copy asks for an index over its suffix, and a
loan refers to a reader that is not declared. -/
def loans : Database :=
  ({ name := "library", platform := .mysql } : Database).withTables
    [{ name := "copy"
       heavyIndexing := some true
       columns := (Columns.empty.push
         { name := "book_id", columnType := .integer, primaryKey := true }
           (Columns.not_contains_empty "book_id")).push
         { name := "number", columnType := .integer, primaryKey := true } (by decide +kernel)
       uniques := [{ columns := [{ name := "number" }, { name := "book_id" }], unique := true }] },
     { name := "loan"
       columns := (Columns.empty.push
         { name := "book_id", columnType := .integer } (Columns.not_contains_empty "book_id")).push
         { name := "copy_number", columnType := .integer } (by decide +kernel)
       foreignKeys :=
         [{ foreignTable := "copy", references := [⟨"copy_number", "number"⟩] },
          { foreignTable := "reader", references := [⟨"book_id", "id"⟩] }] }]

def resolvedLoans : Database × Except SchemaError Report :=
  (standard .tolerant).resolve "" loans

theorem accountsFor_resolve_loans : ∃ report,
    (standard .tolerant).resolve "" loans = (resolvedLoans.1, .ok report) ∧
      AccountsFor loans report := by
  have hok : resolvedLoans.2.toOption.isSome = true := by decide +kernel
  obtain ⟨report, hresolve⟩ := exists_report_of_isSome hok
  exact ⟨report, hresolve, (accountsFor_resolve hresolve).2⟩

/-- One table index over a suffix, two behind keys; one warning; three keys and constraints and the
index over the suffix are named. -/
example : resolvedLoans.2.toOption.map (·.summary) = some
    { total := 4, errors := 0, warnings := 1, info := 3, tablesResolved := 2
      foreignKeysLinked := 2, namesAssigned := 4, indicesSynthesized := 3 } := by
  decide +kernel

end Resolver

end RelSchema
