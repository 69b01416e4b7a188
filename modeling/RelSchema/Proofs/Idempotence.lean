import RelSchema.Proofs.FinalizeRun
import RelSchema.Proofs.SettledTables
import RelSchema.Proofs.TableNames

/-!
# Resolving twice

After both phases the tables are finished and the database is settled, so a second resolve finds
nothing to do, with one exception. The second phase replaces indices by name, and if the index that
it takes out was the only one over a suffix of a primary key, a second resolve adds one for the
suffix again. Resolving is idempotent exactly where this has not happened.
-/

namespace RelSchema

namespace Database

variable {db : Database}

/-- The database with all tables finalized. -/
def finalized (db : Database) : Database :=
  db.mapTables fun _ t => t.finalized db.platform.maxIdentifierLength

theorem table?_finalized (db : Database) (id : TableId) : db.finalized.table? id =
    (db.table? id).map (Table.finalized db.platform.maxIdentifierLength) :=
  table?_mapTables _ db id

/-- Whether all tables are finished. -/
def Finished (db : Database) : Prop := ∀ t ∈ db.tables, t.Finished

theorem Finished.linked (h : db.Finished) : db.linked.Finished := by
  intro t' ht'
  obtain ⟨id, t, ht, rfl⟩ := mem_tables_mapTables ht'
  exact (h t (List.mem_of_getElem? ht)).linkAll db id db.allKeys

/-- Whether the suffixes of all primary keys are indexed, at the tables that ask for it. -/
def SuffixesIndexed (db : Database) : Prop := ∀ t ∈ db.tables, t.SuffixesIndexed

end Database

namespace Resolver

/-- The resolver with the built-in behaviors and the standard names. -/
def standard (check : ReferenceCheck) : Resolver := { check }

variable {r : Resolver} {check : ReferenceCheck} {s : Resolution} {db db' : Database}
  {timestamp : String} {report : Report}

/-! ## The phases of a resolve -/

/-- A resolve goes through when both phases do, and leaves what the second one leaves. -/
theorem resolve_eq_ok_iff : r.resolve timestamp db = (db', .ok report) ↔
    (r.finalize ⟨db, { timestamp }⟩).error = none ∧
      (r.link (r.finalize ⟨db, { timestamp }⟩).state).error = none ∧
      (r.link (r.finalize ⟨db, { timestamp }⟩).state).state = ⟨db', report⟩ := by
  rw [← and_assoc, ← Walk.error_andThen_eq_none_iff]
  have hstate : ((r.finalize ⟨db, { timestamp }⟩).andThen r.link).error = none →
      ((r.finalize ⟨db, { timestamp }⟩).andThen r.link).state =
        (r.link (r.finalize ⟨db, { timestamp }⟩).state).state := fun hnone =>
    Walk.state_andThen_of_error_eq_none (Walk.error_andThen_eq_none_iff.1 hnone).1
  unfold resolve
  dsimp only
  cases herror : ((r.finalize ⟨db, { timestamp }⟩).andThen r.link).error with
  | none =>
    rw [hstate herror]
    dsimp only
    constructor
    · intro h
      obtain ⟨rfl, hreport⟩ := Prod.mk.inj h
      exact ⟨rfl, by rw [← Except.ok.inj hreport]⟩
    · rintro ⟨-, h⟩
      rw [h]
  | some e => simp

theorem error_finalize_standard_iff : ((standard check).finalize s).error = none ↔
    ∀ t ∈ s.db.tables, BehaviorRegistry.Known t := by
  rw [error_finalize_eq_none_iff]
  exact forall_congr' fun t => forall_congr' fun _ => Table.finalize_eq_ok_iff

/-- The first phase with the built-in behaviors and the standard names. -/
theorem db_finalize_standard (h : ((standard check).finalize s).error = none) :
    ((standard check).finalize s).state.db =
      s.db.mapTables fun _ t => t.finalized s.db.platform.maxIdentifierLength :=
  db_finalize h

theorem finished_finalize (h : ((standard check).finalize s).error = none) :
    ((standard check).finalize s).state.db.Finished := by
  intro t' ht'
  rw [db_finalize_standard h] at ht'
  obtain ⟨id, t, ht, rfl⟩ := Database.mem_tables_mapTables ht'
  exact Table.finished_finalized
    (error_finalize_standard_iff.1 h t (List.mem_of_getElem? ht)) _

/-! ## A second first phase -/

theorem error_finalize_of_finished (check : ReferenceCheck) (h : s.db.Finished) :
    ((standard check).finalize s).error = none :=
  error_finalize_standard_iff.2 fun t ht => (h t ht).known

/-- Finalizing finished tables may add indices, which other tables do not see. -/
theorem outline_finalize_of_finished (h : s.db.Finished) :
    ((standard check).finalize s).state.db.outline = s.db.outline := by
  rw [db_finalize_standard (error_finalize_of_finished check h)]
  refine Database.outline_mapTables fun id t ht => ?_
  have hfinished := h t (List.mem_of_getElem? ht)
  rw [Table.finalized, Table.finalize_of_finished hfinished]
  exact Table.outline_complete_of_finished hfinished t.behaviors.length _

theorem outcome?_of_finished (h : s.db.Finished) {id : TableId} {outcome : FinalizeOutcome}
    (ho : (standard check).outcome? s.db id = some outcome) : ∃ t ∈ s.db.tables,
      (t.complete t.behaviors.length .standard s.db.platform.maxIdentifierLength).2 = outcome := by
  obtain ⟨t, ht, houtcome⟩ := Option.bind_eq_some_iff.1 ho
  have hmem := List.mem_of_getElem? ht
  refine ⟨t, hmem, ?_⟩
  rw [finalizeAlone] at houtcome
  have hfinalize := Table.finalize_of_finished (h t hmem) s.db.platform.maxIdentifierLength
  change (t.finalize .builtIn .standard _).2.toOption = some outcome at houtcome
  rw [hfinalize] at houtcome
  exact Option.some.inj houtcome

/-- What the report counts grows by the outcomes. -/
theorem work_finalize (h : (r.finalize s).error = none) :
    (r.finalize s).state.report.summary.work =
      s.report.summary.work.more (s.db.tableIds.filterMap (r.outcome? s.db)).length 0
        ((s.db.tableIds.filterMap (r.outcome? s.db)).flatMap (·.names)).length
        ((s.db.tableIds.filterMap (r.outcome? s.db)).flatMap (·.heavyIndices)).length := by
  rw [report_finalize h, Report.work_foldl_addFinalized]

/-- With all suffixes indexed the first phase finds nothing to do. -/
theorem finalize_of_suffixesIndexed (check : ReferenceCheck) (h : s.db.Finished)
    (hs : s.db.SuffixesIndexed) :
    ((standard check).finalize s).state.db = s.db ∧
      ((standard check).finalize s).state.report.summary.namesAssigned =
        s.report.summary.namesAssigned ∧
      ((standard check).finalize s).state.report.summary.indicesSynthesized =
        s.report.summary.indicesSynthesized := by
  have hok := error_finalize_of_finished check h
  have hnothing : ∀ outcome ∈ s.db.tableIds.filterMap ((standard check).outcome? s.db),
      outcome.names = [] ∧ outcome.heavyIndices = [] := by
    intro outcome ho
    obtain ⟨id, -, hid⟩ := List.mem_filterMap.1 ho
    obtain ⟨t, ht, rfl⟩ := outcome?_of_finished h hid
    rw [Table.complete_of_finished (h t ht) (hs t ht)]
    exact ⟨rfl, rfl⟩
  refine ⟨?_, ?_, ?_⟩
  · rw [db_finalize_standard hok]
    refine Database.mapTables_eq_self fun id t ht => ?_
    have hmem := List.mem_of_getElem? ht
    exact Table.finalized_of_finished (h t hmem) (hs t hmem) _
  · have hnames := List.flatMap_eq_nil_iff.2 fun outcome ho => (hnothing outcome ho).1
    rw [ReportSummary.namesAssigned_of_work (work_finalize hok), hnames]
    rfl
  · have hindices := List.flatMap_eq_nil_iff.2 fun outcome ho => (hnothing outcome ho).2
    rw [ReportSummary.indicesSynthesized_of_work (work_finalize hok), hindices]
    rfl

/-- If the first phase adds no index, there was no suffix without one. -/
theorem suffixesIndexed_of_finalize (check : ReferenceCheck) (h : s.db.Finished)
    (hnone : ((standard check).finalize s).state.report.summary.indicesSynthesized =
      s.report.summary.indicesSynthesized) : s.db.SuffixesIndexed := by
  have hok := error_finalize_of_finished check h
  rw [ReportSummary.indicesSynthesized_of_work (work_finalize hok), Nat.add_eq_left,
    List.length_eq_zero_iff, List.flatMap_eq_nil_iff] at hnone
  intro t ht
  obtain ⟨id, hid⟩ := Database.exists_table?_of_mem ht
  refine Table.suffixesIndexed_of_complete (h t ht) t.behaviors.length
    s.db.platform.maxIdentifierLength ?_
  refine hnone _ (List.mem_filterMap.2 ⟨id, Database.mem_tableIds_iff.2 ⟨t, hid⟩, ?_⟩)
  rw [outcome?, hid, Option.bind_some]
  show (t.finalize .builtIn .standard _).2.toOption = _
  rw [Table.finalize_of_finished (h t ht)]
  rfl

/-! ## A second resolve -/

/-- Linking takes back nothing of what the report counts. -/
theorem indicesSynthesized_le_link (r : Resolver) (s : Resolution) :
    s.report.summary.indicesSynthesized ≤
      (r.link s).state.report.summary.indicesSynthesized := by
  refine Walk.along_invariant (P := fun v : Resolution =>
    s.report.summary.indicesSynthesized ≤ v.report.summary.indicesSynthesized) ?_ (Nat.le_refl _)
  intro v id _ hv
  cases herror : (r.linkTable v id).error with
  | none =>
    rw [report_linkTable herror,
      ReportSummary.indicesSynthesized_of_work (Report.work_addLinked _ _)]
    exact Nat.le_trans hv (Nat.le_add_right _ _)
  | some e =>
    rw [report_linkTable_of_error herror]
    exact hv

/-- What was not refused once is not refused again. -/
theorem error_link_congr {s' : Resolution} (h : s'.db.outline = s.db.outline)
    (hok : (r.link s).error = none) : (r.link s').error = none := by
  rw [error_link_eq_none_iff] at hok ⊢
  refine hok.imp_right fun hall k hk e he => ?_
  rw [Database.dangling?_congr h]
  exact hall k (Database.allKeys_congr h ▸ hk) e he

/-- **Resolving twice.** After a resolve that goes through, a second one goes through as well. It
leaves the database as it is, with no name assigned and no index added, exactly if the first one has
left an index over every suffix of every primary key that asks for them. -/
theorem resolve_again (timestamp' : String)
    (h : (standard check).resolve timestamp db = (db', .ok report)) :
    ∃ db'' report', (standard check).resolve timestamp' db' = (db'', .ok report') ∧
      ((db'' = db' ∧ report'.summary.namesAssigned = 0 ∧
          report'.summary.indicesSynthesized = 0) ↔ db'.SuffixesIndexed) := by
  obtain ⟨hfinalize, hlink, hstate⟩ := resolve_eq_ok_iff.1 h
  -- the first resolve leaves finished tables and settled edges
  have hdb : db' = ((standard check).finalize ⟨db, { timestamp }⟩).state.db.linked := by
    rw [← db_link hlink, hstate]
  have hfinished : db'.Finished := hdb ▸ (finished_finalize hfinalize).linked
  have hsettled : db'.Settled := hdb ▸ Database.settled_linked _
  -- and neither phase of the second one is refused
  have hfinalize' : ((standard check).finalize ⟨db', { timestamp := timestamp' }⟩).error = none :=
    error_finalize_of_finished check hfinished
  have houtline : ((standard check).finalize ⟨db', { timestamp := timestamp' }⟩).state.db.outline =
      ((standard check).finalize ⟨db, { timestamp }⟩).state.db.outline := by
    rw [outline_finalize_of_finished hfinished, hdb, Database.outline_linked]
  have hlink' := error_link_congr houtline hlink
  refine ⟨_, _, resolve_eq_ok_iff.2 ⟨hfinalize', hlink', rfl⟩, ?_⟩
  constructor
  · rintro ⟨-, -, hindices⟩
    -- linking takes nothing off the count, so already the first phase has added no index
    refine suffixesIndexed_of_finalize check
      (s := ⟨db', { timestamp := timestamp' }⟩) hfinished ?_
    have hle := indicesSynthesized_le_link (standard check)
      ((standard check).finalize ⟨db', { timestamp := timestamp' }⟩).state
    exact Nat.le_zero.1 (Nat.le_trans hle (Nat.le_of_eq hindices))
  · intro hs
    obtain ⟨hsame, hnames, hindices⟩ := finalize_of_suffixesIndexed check
      (s := ⟨db', { timestamp := timestamp' }⟩) hfinished hs
    obtain ⟨hsame', hnames', hindices'⟩ := link_of_settled (r := standard check)
      (s := ((standard check).finalize ⟨db', { timestamp := timestamp' }⟩).state)
      (by rw [hsame]; exact hsettled)
    exact ⟨hsame'.trans hsame, hnames'.trans hnames, hindices'.trans hindices⟩

/-- A table with a composite key and heavy indexing. The index over the last key column has the name
that the foreign key gives to its own. -/
def crossReferences : Database :=
  ({ name := "shop", platform := .mysql } : Database).withTables
    [{ name := "book"
       heavyIndexing := some true
       columns := ((Columns.empty.push
         { name := "x", columnType := .integer, primaryKey := true }
           (Columns.not_contains_empty "x")).push
         { name := "y", columnType := .integer, primaryKey := true } (by decide +kernel)).push
         { name := "z", columnType := .integer } (by decide +kernel)
       foreignKeys := [{ foreignTable := "book", references := [⟨"z", "x"⟩] }]
       indices := [{ name := "book_FI_1", columns := [{ name := "y" }] }] }]

def firstResolve : Database × Except SchemaError Report :=
  (standard .tolerant).resolve "" crossReferences

def secondResolve : Database × Except SchemaError Report :=
  (standard .tolerant).resolve "" firstResolve.1

/-- The first resolve replaces the index over the suffix, and the second one adds another. -/
theorem secondResolve_ne : firstResolve.2.toOption.isSome = true ∧
    secondResolve.1 ≠ firstResolve.1 ∧
    secondResolve.2.toOption.map (·.summary.namesAssigned) = some 1 ∧
    secondResolve.2.toOption.map (·.summary.indicesSynthesized) = some 1 := by
  decide +kernel

/-- The exact condition, where the first resolve of this database went through. -/
theorem resolve_again_crossReferences : ∃ report,
    (standard .tolerant).resolve "" crossReferences = (firstResolve.1, .ok report) ∧
    ∃ db'' report', (standard .tolerant).resolve "" firstResolve.1 = (db'', .ok report') ∧
      ((db'' = firstResolve.1 ∧ report'.summary.namesAssigned = 0 ∧
          report'.summary.indicesSynthesized = 0) ↔ firstResolve.1.SuffixesIndexed) := by
  have hok : firstResolve.2.toOption.isSome = true := by decide +kernel
  cases hfirst : firstResolve.2 with
  | error e =>
    rw [hfirst] at hok
    cases hok
  | ok report =>
    have hresolve : (standard .tolerant).resolve "" crossReferences =
        (firstResolve.1, .ok report) := Prod.ext rfl hfirst
    exact ⟨report, hresolve, resolve_again "" hresolve⟩

end Resolver

end RelSchema
