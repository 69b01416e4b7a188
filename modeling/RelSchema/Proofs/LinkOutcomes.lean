import RelSchema.Proofs.DanglingReferences
import RelSchema.Proofs.SettledTables

/-!
# What the calls of a run come to

A run of linking is one call for each table, and the report is put together from what the calls come
to (`Resolver.report_link`). How many keys a call links and what it warns of is a matter of the
outline of the database, so it is the same in every run (`Resolver.map_quiet_linkOutcomes`). Only
the edges and the indices that a call adds depend on what was linked before.
-/

namespace RelSchema

/-- The outcome without the edges and the indices that were added. -/
def LinkOutcome.quiet (outcome : LinkOutcome) : LinkOutcome :=
  { outcome with edgesAdded := 0, synthesized := [] }

theorem LinkOutcome.quiet_of_additions {outcome : LinkOutcome} (h : outcome.additions = (0, [])) :
    outcome.quiet = outcome := by
  obtain ⟨keys, edges, diagnostics, synthesized⟩ := outcome
  obtain ⟨rfl, rfl⟩ := Prod.mk.inj h
  rfl

namespace Database

/-- What linking these tables one after the other comes to, call by call. A call that is refused
ends the run. -/
def linkOutcomes (check : ReferenceCheck) (db : Database) : List TableId → List LinkOutcome
  | [] => []
  | id :: rest =>
    match db.linkTable check id with
    | (db', .ok outcome) => outcome :: db'.linkOutcomes check rest
    | (_, .error _) => []

/-- The keys that a table declares, and what is missing of what they name. -/
def plainOutcome (db : Database) (id : TableId) : LinkOutcome where
  foreignKeys := (db.declaredKeys id).length
  diagnostics := ((db.declaredKeys id).flatMap (·.danglingEnds db)).map (·.warning)

variable {db db' : Database}

theorem plainOutcome_congr (h : db.outline = db'.outline) (id : TableId) :
    db.plainOutcome id = db'.plainOutcome id := by
  have hkeys : db.declaredKeys id = db'.declaredKeys id := by
    rw [declaredKeys_eq_outline, declaredKeys_eq_outline, h]
  simp only [plainOutcome, hkeys, DeclaredKey.danglingEnds_congr h]

theorem length_declaredKeys (db : Database) (id : TableId) :
    (db.declaredKeys id).length = (db.table? id).elim 0 (·.foreignKeys.length) := by
  unfold declaredKeys
  cases db.table? id <;> simp

/-- The declared keys are the foreign keys, counted table by table. -/
theorem sum_length_declaredKeys (db : Database) :
    (db.tableIds.map fun id => (db.declaredKeys id).length).sum = db.foreignKeyCount := by
  have hplaces : db.tableIds.map (fun id => (db.table? id).elim 0 (·.foreignKeys.length)) =
      db.tables.map (·.foreignKeys.length) := by
    rw [tableIds, List.map_map]
    apply List.ext_getElem
    · simp
    · intro place h h'
      simp only [List.length_map] at h'
      simp [table?, h']
  simp only [length_declaredKeys]
  rw [hplaces, foreignKeyCount, List.sum_eq_foldl, List.foldl_map]

/-- What the calls warn of is what is missing. -/
theorem flatMap_diagnostics_plainOutcome (db : Database) :
    (db.tableIds.map db.plainOutcome).flatMap (·.diagnostics) = db.missing.map (·.warning) := by
  rw [← db.flatMap_allKeys_danglingEnds, allKeys, List.flatMap_map, List.flatMap_assoc,
    List.map_flatMap]
  rfl

theorem foreignKeyCount_congr (h : db.outline = db'.outline) :
    db.foreignKeyCount = db'.foreignKeyCount := by
  have houtline : ∀ db : Database, db.foreignKeyCount =
      db.outline.foldl (fun count t => count + t.2.1.length) 0 := by
    intro db
    rw [outline, List.foldl_map]
    rfl
  rw [houtline, houtline, h]

theorem warnings_missing_congr (h : db.outline = db'.outline) :
    db.missing.map (·.warning) = db'.missing.map (·.warning) := by
  rw [← flatMap_diagnostics_plainOutcome, ← flatMap_diagnostics_plainOutcome, tableIds_eq_outline,
    tableIds_eq_outline, h, funext (plainOutcome_congr h)]

end Database

/-! ## Counting the keys -/

namespace LinkState

variable {check : ReferenceCheck} {k : DeclaredKey} {s : LinkState}

theorem foreignKeys_visitEnd (check : ReferenceCheck) (k : DeclaredKey) (s : LinkState)
    (e : KeyEnd) : (visitEnd check k s e).state.outcome.foreignKeys = s.outcome.foreignKeys := by
  unfold visitEnd
  cases k.dangling? s.db e <;> cases check <;> rfl

theorem foreignKeys_synthesizeFor (s : LinkState) (k : DeclaredKey) :
    (s.synthesizeFor k).outcome.foreignKeys = s.outcome.foreignKeys := by
  unfold synthesizeFor
  dsimp only
  split
  · split
    · split <;> rfl
    · rfl
  · rfl

/-- A key is counted before its ends are looked at. -/
theorem foreignKeys_visitKey (check : ReferenceCheck) (s : LinkState) (k : DeclaredKey) :
    (visitKey check s k).state.outcome.foreignKeys = s.outcome.foreignKeys + 1 := by
  have hends : (Walk.along (visitEnd check k) s.counted k.key.ends).state.outcome.foreignKeys =
      s.outcome.foreignKeys + 1 :=
    Walk.along_invariant
      (P := fun v : LinkState => v.outcome.foreignKeys = s.outcome.foreignKeys + 1)
      (fun v e _ hv => (foreignKeys_visitEnd check k v e).trans hv) rfl
  unfold visitKey Walk.andThen
  dsimp only
  split
  · exact (foreignKeys_synthesizeFor _ k).trans hends
  · exact hends

end LinkState

namespace Resolver

variable {r : Resolver} {s : Resolution} {db : Database} {id : TableId} {ids : List TableId}

theorem foreignKeys_keyWalk (h : (r.keyWalk db id).error = none) :
    (r.keyWalk db id).state.outcome.foreignKeys = (db.declaredKeys id).length := by
  have hcount : (r.keyWalk db id).state.outcome.foreignKeys =
      (db.declaredKeys id).foldl (fun count _ => count + 1) 0 :=
    Walk.view_along (fun v : LinkState => v.outcome.foreignKeys) (fun count _ => count + 1)
      (fun v k _ => LinkState.foreignKeys_visitKey r.check v k) h
  have hones : ((db.declaredKeys id).map fun _ => 1).sum = (db.declaredKeys id).length := by simp
  rw [hcount, ← hones, List.sum_eq_foldl, List.foldl_map]

/-- Up to what it adds, a call does what the outline of the database says. -/
theorem quiet_keyWalk (h : (r.keyWalk db id).error = none) :
    (r.keyWalk db id).state.outcome.quiet = db.plainOutcome id := by
  rw [LinkOutcome.quiet, foreignKeys_keyWalk h, diagnostics_keyWalk h]
  rfl

/-! ## The calls of a run -/

theorem linkOutcomes_cons (h : (r.keyWalk db id).error = none) :
    db.linkOutcomes r.check (id :: ids) = (r.keyWalk db id).state.outcome ::
      (r.keyWalk db id).state.db.linkOutcomes r.check ids := by
  have hcall : db.linkTable r.check id =
      ((r.keyWalk db id).state.db, .ok (r.keyWalk db id).state.outcome) := by
    unfold keyWalk at h
    simp only [Database.linkTable, h]
    rfl
  rw [Database.linkOutcomes, hcall]

/-- A run that is not refused makes its first call and goes on from there. -/
theorem along_linkTable_cons (h : (Walk.along r.linkTable s (id :: ids)).error = none) :
    (r.keyWalk s.db id).error = none ∧
      (Walk.along r.linkTable (r.linkTable s id).state ids).error = none ∧
      Walk.along r.linkTable s (id :: ids) =
        Walk.along r.linkTable (r.linkTable s id).state ids := by
  rw [Walk.along_cons] at h ⊢
  obtain ⟨hfirst, hrest⟩ := Walk.error_andThen_eq_none_iff.1 h
  refine ⟨(error_linkTable r s id).symm.trans hfirst, hrest, ?_⟩
  rw [Walk.andThen, hfirst]

/-- **The report of a run** is put together from what the calls come to. -/
theorem report_along_linkTable (h : (Walk.along r.linkTable s ids).error = none) :
    (Walk.along r.linkTable s ids).state.report =
      (s.db.linkOutcomes r.check ids).foldl Report.addLinked s.report := by
  induction ids generalizing s with
  | nil => rfl
  | cons id rest ih =>
    obtain ⟨hfirst, hrest, hwalk⟩ := along_linkTable_cons h
    rw [hwalk, ih hrest, linkOutcomes_cons hfirst, List.foldl_cons, ← db_linkTable,
      report_linkTable ((error_linkTable r s id).trans hfirst)]

theorem report_link (h : (r.link s).error = none) : (r.link s).state.report =
    (s.db.linkOutcomes r.check s.db.tableIds).foldl Report.addLinked s.report :=
  report_along_linkTable h

theorem map_quiet_along (h : (Walk.along r.linkTable s ids).error = none)
    (houtline : s.db.outline = db.outline) :
    (s.db.linkOutcomes r.check ids).map LinkOutcome.quiet = ids.map db.plainOutcome := by
  induction ids generalizing s with
  | nil => rfl
  | cons id rest ih =>
    obtain ⟨hfirst, hrest, -⟩ := along_linkTable_cons h
    have hnext := ih hrest ((outline_linkTable r s id).trans houtline)
    rw [db_linkTable] at hnext
    rw [linkOutcomes_cons hfirst, List.map_cons, List.map_cons, hnext, quiet_keyWalk hfirst,
      Database.plainOutcome_congr houtline]

/-- Up to what they add, the calls do what the outline of the database says. -/
theorem map_quiet_linkOutcomes (h : (r.link s).error = none) :
    (s.db.linkOutcomes r.check s.db.tableIds).map LinkOutcome.quiet =
      s.db.tableIds.map s.db.plainOutcome :=
  map_quiet_along h rfl

end Resolver

/-! ## What the report takes from the calls -/

namespace Report

theorem warnings_foldl_addLinked {outcomes : List LinkOutcome}
    (h : ∀ d ∈ outcomes.flatMap (·.diagnostics), d.severity = .warn) (report : Report) :
    (outcomes.foldl addLinked report).warnings =
      report.warnings ++ outcomes.flatMap (·.diagnostics) := by
  induction outcomes generalizing report with
  | nil => exact (List.append_nil _).symm
  | cons outcome rest ih =>
    rw [List.flatMap_cons, List.forall_mem_append] at h
    rw [List.foldl_cons, ih h.2, warnings_addLinked h.1, List.flatMap_cons, List.append_assoc]

end Report

namespace Resolver

variable {r : Resolver} {s : Resolution}

theorem flatMap_diagnostics_linkOutcomes (h : (r.link s).error = none) :
    (s.db.linkOutcomes r.check s.db.tableIds).flatMap (·.diagnostics) =
      s.db.missing.map (·.warning) := by
  have hquiet := congrArg (List.flatMap (·.diagnostics)) (map_quiet_linkOutcomes h)
  rw [Database.flatMap_diagnostics_plainOutcome, List.flatMap_map] at hquiet
  exact hquiet

theorem sum_foreignKeys_linkOutcomes (h : (r.link s).error = none) :
    ((s.db.linkOutcomes r.check s.db.tableIds).map (·.foreignKeys)).sum = s.db.foreignKeyCount := by
  have hkeys := congrArg (fun outcomes => (outcomes.map LinkOutcome.foreignKeys).sum)
    (map_quiet_linkOutcomes h)
  simp only [List.map_map] at hkeys
  exact hkeys.trans s.db.sum_length_declaredKeys

/-- A run links all foreign keys, whichever way references are checked. -/
theorem foreignKeysLinked_link (h : (r.link s).error = none) :
    (r.link s).state.report.summary.foreignKeysLinked =
      s.report.summary.foreignKeysLinked + s.db.foreignKeyCount := by
  rw [← sum_foreignKeys_linkOutcomes h, report_link h]
  exact ReportSummary.foreignKeysLinked_of_work (Report.work_foldl_addLinked _ _)

/-- A run warns of all that is missing; a strict one is refused where anything is. -/
theorem warnings_link (h : (r.link s).error = none) :
    (r.link s).state.report.warnings = s.report.warnings ++ s.db.missing.map (·.warning) := by
  have hdiagnostics := flatMap_diagnostics_linkOutcomes h
  rw [report_link h, Report.warnings_foldl_addLinked, hdiagnostics]
  rw [hdiagnostics]
  exact List.forall_mem_map.2 fun _ _ => rfl

end Resolver

end RelSchema
