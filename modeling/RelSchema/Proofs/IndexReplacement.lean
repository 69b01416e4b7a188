import Mathlib.Data.List.Induction
import Mathlib.Data.List.Nodup
import RelSchema.Proofs.FinalizeRun
import RelSchema.Proofs.IndexNames

/-!
# What completing a table changes

Each index that a run adds has a name that the run has not used before, and takes the place of the
first index with this name, if there is one (`Worklist.step_of_uncovered`). The invariant of a run
(`Worklist.Replacing`) is that the table has the indices that it started with, less the first one
with each of the new names, and behind them the reported ones; a reported index is never taken out
again, since its name is used. What completing a table changes, and what it leaves alone, is read
off at the end (`Database.synthesizeIndices_replaces`).
-/

namespace RelSchema

/-- The index that a report stands for. -/
def SynthesizedIndex.index (entry : SynthesizedIndex) : Index :=
  { (Index.on entry.columns).resetSizes with name := entry.name, unique := false }

@[simp] theorem SynthesizedIndex.name_index (entry : SynthesizedIndex) :
    entry.index.name = entry.name := rfl

@[simp] theorem SynthesizedIndex.columnNames_index (entry : SynthesizedIndex) :
    entry.index.columnNames = entry.columns := by
  show (Index.on entry.columns).resetSizes.columnNames = _
  simp

/-- The index that a report stands for is a plain one over the reported columns in full. -/
theorem SynthesizedIndex.plain_index (entry : SynthesizedIndex) :
    entry.index.name = entry.name ∧ entry.index.columnNames = entry.columns ∧
      entry.index.unique = false ∧ entry.index.isSized = false := by
  refine ⟨rfl, entry.columnNames_index, rfl, ?_⟩
  simp [index, Index.isSized, Index.resetSizes]

/-! ## Taking out the first index of each name -/

namespace Table

/-- The indices of a table, less the first one with each of these names. -/
def remainingIndices (t : Table) (names : List String) : List Index :=
  names.foldl (fun left name => left.eraseP (·.name == name)) t.indices

variable {t : Table} {names : List String}

theorem remainingIndices_snoc (t : Table) (names : List String) (name : String) :
    t.remainingIndices (names ++ [name]) =
      (t.remainingIndices names).eraseP (·.name == name) := by
  rw [remainingIndices, List.foldl_append]
  rfl

theorem remainingIndices_sublist (t : Table) (names : List String) :
    (t.remainingIndices names).Sublist t.indices := by
  induction names using List.reverseRecOn with
  | nil => exact List.Sublist.refl _
  | append_singleton names name ih =>
    rw [remainingIndices_snoc]
    exact List.eraseP_sublist.trans ih

/-- Of the names of the indices, each of these names is taken out once. -/
theorem map_name_remainingIndices (t : Table) (names : List String) :
    (t.remainingIndices names).map (·.name) = t.indexNames.diff names := by
  induction names using List.reverseRecOn with
  | nil => rfl
  | append_singleton names name ih =>
    rw [remainingIndices_snoc, List.diff_append, ← ih, List.diff_cons, List.diff_nil,
      List.erase_eq_eraseP', List.eraseP_map]
    rfl

/-- The indices with other names are all left, in their order. -/
theorem filter_remainingIndices {p : Index → Bool}
    (h : ∀ index, index.name ∈ names → p index = false) :
    (t.remainingIndices names).filter p = t.indices.filter p := by
  induction names using List.reverseRecOn with
  | nil => rfl
  | append_singleton names name ih =>
    have hnames : ∀ index, index.name ∈ names → p index = false :=
      fun index hindex => h index (List.mem_append_left _ hindex)
    rw [remainingIndices_snoc, ← ih hnames]
    rcases List.exists_or_eq_self_of_eraseP (fun index : Index => index.name == name)
      (t.remainingIndices names) with hsame | ⟨old, before, after, -, hold, hsplit, herase⟩
    · rw [hsame]
    · have hname : p old = false := h old (by simp [eq_of_beq hold])
      rw [herase, hsplit, List.filter_append, List.filter_append, List.filter_cons_of_neg]
      simp [hname]

end Table

/-! ## The run -/

namespace Worklist

variable {start : Table} {w : Worklist} {r : Requirement} {name : String}

/-! ### One step -/

theorem created_dropStale (w : Worklist) (name : String) :
    (w.dropStale name).created = w.created := by
  rcases w.dropStale_eq name with heq | heq <;> rw [heq]

theorem name_dropStale (w : Worklist) (name : String) :
    (w.dropStale name).table.name = w.table.name := by
  rcases w.dropStale_eq name with heq | heq <;> rw [heq]

theorem created_step_of_uncovered (h : ¬ w.coverage.isCovered r.columns = true) :
    (w.step r).created =
      w.created ++ [⟨w.table.name, w.indexName r, r.columns, r.reason⟩] := by
  rw [step_of_uncovered h, create, created_dropStale, name_dropStale]

theorem indices_step_of_uncovered (h : ¬ w.coverage.isCovered r.columns = true) :
    (w.step r).table.indices = w.table.indices.eraseP (·.name == w.indexName r) ++
      [SynthesizedIndex.index ⟨w.table.name, w.indexName r, r.columns, r.reason⟩] := by
  rw [step_of_uncovered h]
  show (dropStale _ _).table.indices ++ _ = _
  rw [indices_dropStale]
  rfl

/-! ### The invariant -/

/-- A run that started from this table has put the reported indices in the place of the first ones
with their names. -/
structure Replacing (start : Table) (w : Worklist) : Prop where
  name : w.table.name = start.name
  entries : ∀ entry ∈ w.created, entry.table = start.name ∧ entry.name ≠ ""
  nodup : (w.created.map (·.name)).Nodup
  indices : w.table.indices =
    start.remainingIndices (w.created.map (·.name)) ++ w.created.map (·.index)

theorem Replacing.mem_indexNames (h : w.Replacing start) :
    ∀ entry ∈ w.created, entry.name ∈ w.table.indexNames := by
  intro entry hentry
  rw [Table.indexNames, h.indices, List.map_append, List.map_map]
  exact List.mem_append_right _ (List.mem_map_of_mem hentry)

theorem Replacing.take {rest : List Requirement} (h : w.Replacing start) :
    Replacing start { w with pending := rest } := ⟨h.name, h.entries, h.nodup, h.indices⟩

/-- An index with a name that the run has not used is one of the old ones that are left. -/
theorem Replacing.exists_remaining (h : w.Replacing start)
    (hunused : ∀ entry ∈ w.created, entry.name ≠ name) (hname : name ∈ w.table.indexNames) :
    ∃ old ∈ start.remainingIndices (w.created.map (·.name)), old.name = name := by
  rw [Table.indexNames, h.indices, List.map_append, List.mem_append, List.map_map] at hname
  rcases hname with hname | hname
  · exact List.mem_map.1 hname
  · obtain ⟨entry, hentry, hsame⟩ := List.mem_map.1 hname
    exact absurd hsame (hunused entry hentry)

/-- **Step.** The first index with an unused name is one of the old ones. -/
theorem Replacing.step (h : w.Replacing start) (r : Requirement) :
    (w.step r).Replacing start := by
  by_cases hcov : w.coverage.isCovered r.columns = true
  · rw [step_of_covered hcov]
    exact ⟨h.name, h.entries, h.nodup, h.indices⟩
  · have hunused := unused_indexName h.mem_indexNames r
    have hcreated := created_step_of_uncovered hcov
    constructor
    case name =>
      rw [table_step]
      exact h.name
    case entries =>
      rw [hcreated]
      refine List.forall_mem_append.2 ⟨h.entries, fun entry hentry => ?_⟩
      rw [List.mem_singleton.1 hentry]
      exact ⟨h.name, w.indexName_ne_empty r⟩
    case nodup =>
      rw [hcreated, List.map_append, List.map_singleton, ← List.concat_eq_append]
      refine h.nodup.concat ?_
      simpa using hunused
    case indices =>
      -- the reported indices have other names, so only the remaining ones can lose one
      have hreported : (w.created.map (·.index)).eraseP (·.name == w.indexName r) =
          w.created.map (·.index) := by
        apply List.eraseP_of_forall_not
        simpa using hunused
      have herase : (start.remainingIndices (w.created.map (·.name)) ++
            w.created.map (·.index)).eraseP (·.name == w.indexName r) =
          (start.remainingIndices (w.created.map (·.name))).eraseP (·.name == w.indexName r) ++
            w.created.map (·.index) := by
        rw [List.eraseP_append]
        split
        · rfl
        · rename_i hnone
          rw [hreported, List.eraseP_of_forall_not]
          simpa using hnone
      rw [indices_step_of_uncovered hcov, hcreated, h.indices, herase, List.map_append,
        List.map_singleton, Table.remainingIndices_snoc, List.map_append, List.map_singleton,
        List.append_assoc]

end Worklist

namespace Table

/-- The indices that are reported when a table is completed. -/
def createdIn (db : Database) (t : Table) : List SynthesizedIndex := (db.worklist t).run.created

theorem replacing_worklist (db : Database) (t : Table) : (db.worklist t).Replacing t :=
  ⟨rfl, fun _ h => absurd h List.not_mem_nil, List.nodup_nil, (List.append_nil _).symm⟩

/-- **Run.** What holds at the start of completing a table holds at its end. -/
theorem replacing_run (db : Database) (t : Table) : (db.worklist t).run.Replacing t :=
  (Worklist.run_induction (P := Worklist.Replacing t) (fun _ r _ _ h => h.take.step r)
    (replacing_worklist db t)).1

/-- The reported indices stand behind the old ones that are left. -/
theorem completedIn_eq_replaced (db : Database) (t : Table) :
    t.completedIn db = t.withIndices (t.remainingIndices ((t.createdIn db).map (·.name)) ++
      (t.createdIn db).map (·.index)) :=
  (completedIn_eq_withIndices db t).trans (congrArg t.withIndices (replacing_run db t).indices)

/-- The old indices whose names are not reported are left alone. -/
theorem filter_indices_completedIn (db : Database) (t : Table) :
    ((t.completedIn db).indices.filter fun index =>
        index.name ∉ (t.createdIn db).map (·.name)) =
      t.indices.filter fun index => index.name ∉ (t.createdIn db).map (·.name) := by
  have hreported : (((t.createdIn db).map (·.index)).filter fun index =>
      index.name ∉ (t.createdIn db).map (·.name)) = [] := by
    simp only [List.filter_eq_nil_iff, List.forall_mem_map, SynthesizedIndex.name_index,
      decide_eq_true_eq, not_not]
    exact fun entry hentry => List.mem_map_of_mem hentry
  rw [completedIn_eq_replaced, withIndices_indices, List.filter_append, hreported,
    List.append_nil]
  apply filter_remainingIndices
  simp

end Table

/-! ## Completing a table of a database -/

namespace Database

variable {db db' : Database} {id : TableId} {t : Table} {created : List SynthesizedIndex}

theorem synthesizeIndices_of_table? (ht : db.table? id = some t) : db.synthesizeIndices id =
    (db.modifyTable id fun _ => t.completedIn db, t.createdIn db) := by
  rw [synthesizeIndices, ht]
  rfl

theorem synthesizeIndices_of_unknown (ht : db.table? id = none) :
    db.synthesizeIndices id = (db, []) := by
  rw [synthesizeIndices, ht]

theorem table?_modifyTable_self (ht : db.table? id = some t) (f : Table → Table) :
    (db.modifyTable id f).table? id = some (f t) := by
  rw [modifyTable_eq_mapTables, table?_mapTables, ht, Option.map_some, if_pos rfl]

theorem modifyTable_of_unknown (ht : db.table? id = none) (f : Table → Table) :
    db.modifyTable id f = db := by
  rw [modifyTable_eq_mapTables]
  refine mapTables_eq_self fun i t hi => if_neg ?_
  rintro rfl
  rw [ht] at hi
  cases hi

/-- **What completing a table changes.** The reported names are distinct. The table keeps its old
indices, less the first one with each reported name, and gets the reported indices behind them in
order, plain and over the reported columns in full; all else in the database stays. So the old
indices with other names are still there in their order, and no reported index was taken out. -/
theorem synthesizeIndices_replaces (h : db.synthesizeIndices id = (db', created)) :
    (created.map (·.name)).Nodup ∧
    (db' = db.modifyTable id fun t => t.withIndices
      (t.remainingIndices (created.map (·.name)) ++ created.map (·.index))) ∧
    (∀ entry ∈ created, entry.index.name = entry.name ∧ entry.index.columnNames = entry.columns ∧
      entry.index.unique = false ∧ entry.index.isSized = false) ∧
    (db.table? id = none → created = []) ∧
    ∀ t t', db.table? id = some t → db'.table? id = some t' →
      (t'.indices.filter fun index => index.name ∉ created.map (·.name)) =
        (t.indices.filter fun index => index.name ∉ created.map (·.name)) ∧
      ∀ entry ∈ created, entry.table = t.name ∧ entry.index ∈ t'.indices := by
  cases ht : db.table? id with
  | none =>
    rw [synthesizeIndices_of_unknown ht, Prod.mk.injEq] at h
    obtain ⟨rfl, rfl⟩ := h
    refine ⟨List.nodup_nil, (modifyTable_of_unknown ht _).symm,
      fun entry _ => entry.plain_index, fun _ => rfl, ?_⟩
    intro t t' ht'
    cases ht'
  | some t =>
    rw [synthesizeIndices_of_table? ht, Prod.mk.injEq] at h
    obtain ⟨rfl, rfl⟩ := h
    refine ⟨(t.replacing_run db).nodup, ?_, fun entry _ => entry.plain_index,
      fun hnone => (Option.some_ne_none t hnone).elim, ?_⟩
    · apply modifyTable_congr
      intro u hu
      cases ht.symm.trans hu
      exact t.completedIn_eq_replaced db
    · intro u t' hu ht'
      cases hu
      rw [table?_modifyTable_self ht, Option.some.injEq] at ht'
      subst ht'
      refine ⟨t.filter_indices_completedIn db, fun entry hentry => ⟨?_, ?_⟩⟩
      · exact ((t.replacing_run db).entries entry hentry).1
      · rw [t.completedIn_eq_replaced db]
        exact List.mem_append_right _ (List.mem_map_of_mem hentry)

/-- Books with two foreign keys of one name, and two indices under the name that these generate. -/
def catalogue : Database where
  name := "catalogue"
  platform := .mysql
  tables :=
    [{ name := "book"
       columns := ((Columns.empty.push
         { name := "author_id", columnType := .integer }
           (Columns.not_contains_empty "author_id")).push
         { name := "editor_id", columnType := .integer } (by decide +kernel)).push
         { name := "title", columnType := .varchar } (by decide +kernel)
       foreignKeys :=
         [{ name := "book_FK_1", foreignTable := "author", references := [⟨"author_id", "id"⟩] },
          { name := "book_FK_1", foreignTable := "author", references := [⟨"editor_id", "id"⟩] }]
       indices :=
         [{ name := "book_FI_1", columns := [{ name := "title" }] },
          { name := "book_I_1", columns := [{ name := "title" }, { name := "editor_id" }] },
          { name := "book_FI_1", columns := [{ name := "title" }, { name := "author_id" }] }] }]

/-- The first of the two old indices gives way, and the second key gets a numbered name. -/
theorem synthesizeIndices_replaces_catalogue : ∃ db' created,
    catalogue.synthesizeIndices ⟨0⟩ = (db', created) ∧
    created.map (fun entry => (entry.name, entry.columns)) =
      [("book_FI_1", ["author_id"]), ("book_FI_1_2", ["editor_id"])] ∧
    (db'.table? ⟨0⟩).map (·.indexNames) =
      some ["book_I_1", "book_FI_1", "book_FI_1", "book_FI_1_2"] ∧
    (created.map (·.name)).Nodup ∧
    db' = catalogue.modifyTable ⟨0⟩ fun t => t.withIndices
      (t.remainingIndices (created.map (·.name)) ++ created.map (·.index)) := by
  have h : catalogue.synthesizeIndices ⟨0⟩ =
      ((catalogue.synthesizeIndices ⟨0⟩).1, (catalogue.synthesizeIndices ⟨0⟩).2) := rfl
  obtain ⟨hnodup, hdb, -⟩ := synthesizeIndices_replaces h
  exact ⟨_, _, h, by decide +kernel, by decide +kernel, hnodup, hdb⟩

end Database

end RelSchema
