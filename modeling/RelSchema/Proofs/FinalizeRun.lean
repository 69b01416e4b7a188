import RelSchema.Proofs.Accounting
import RelSchema.Proofs.FinishedTables
import RelSchema.Proofs.LinkRun

/-!
# Runs of finalizing

The first phase visits each table once, and a visit looks at no other table. So a run that is not
refused finalizes every table by itself (`Resolver.db_finalize`), it is refused exactly when some
table is (`Resolver.error_finalize_eq_none_iff`), and the report adds up the outcomes of the tables.
-/

namespace RelSchema

namespace Database

variable {db : Database}

theorem nodup_tableIds (db : Database) : db.tableIds.Nodup := by
  have hmap : ∀ l : List Nat, l.Nodup → (l.map TableId.mk).Nodup := by
    intro l hl
    rw [List.Nodup, List.pairwise_map]
    exact hl.imp fun hne heq => hne (TableId.mk.inj heq)
  exact hmap _ List.nodup_range

/-- A change of the tables with some handles. -/
def mapSome (ids : List TableId) (f : Table → Table) (db : Database) : Database :=
  db.mapTables fun id t => if id ∈ ids then f t else t

theorem mapSome_cons {id : TableId} {rest : List TableId} {f : Table → Table} (h : id ∉ rest) :
    (db.modifyTable id f).mapSome rest f = db.mapSome (id :: rest) f := by
  rw [mapSome, modifyTable_eq_mapTables, mapTables_mapTables, mapSome]
  refine mapTables_congr fun i t _ => ?_
  by_cases hi : i = id
  · subst hi
    rw [if_pos rfl, if_neg h, if_pos List.mem_cons_self]
  · have hiff : i ∈ id :: rest ↔ i ∈ rest := List.mem_cons.trans (or_iff_right hi)
    rw [if_neg hi]
    exact ite_congr (propext hiff.symm) (fun _ => rfl) fun _ => rfl

theorem mapSome_tableIds (f : Table → Table) (db : Database) :
    db.mapSome db.tableIds f = db.mapTables fun _ t => f t :=
  mapTables_congr fun _ t ht => if_pos (mem_tableIds_iff.2 ⟨t, ht⟩)

theorem table?_modifyTable_of_ne {id i : TableId} (h : i ≠ id) (f : Table → Table) :
    (db.modifyTable id f).table? i = db.table? i := by
  rw [modifyTable_eq_mapTables, table?_mapTables]
  cases db.table? i with
  | none => rfl
  | some t => exact congrArg some (if_neg h)

theorem modifyTable_congr {id : TableId} {f g : Table → Table}
    (h : ∀ t, db.table? id = some t → f t = g t) : db.modifyTable id f = db.modifyTable id g := by
  rw [modifyTable_eq_mapTables, modifyTable_eq_mapTables]
  refine mapTables_congr fun i t ht => ?_
  by_cases hi : i = id
  · rw [if_pos hi, if_pos hi, h t (hi ▸ ht)]
  · rw [if_neg hi, if_neg hi]

end Database

namespace Resolver

variable {r : Resolver} {s : Resolution} {id : TableId}

/-- What finalizing a table by itself comes to. -/
def finalizeAlone (r : Resolver) (platform : Platform) (t : Table) :
    Table × Except SchemaError FinalizeOutcome :=
  t.finalize r.behaviors r.strategy platform.maxIdentifierLength

/-- The outcome for the table with this handle, unless it is refused. -/
def outcome? (r : Resolver) (db : Database) (id : TableId) : Option FinalizeOutcome :=
  (db.table? id).bind fun t => (r.finalizeAlone db.platform t).2.toOption

theorem db_finalizeTable (r : Resolver) (s : Resolution) (id : TableId) :
    (r.finalizeTable s id).state.db =
      s.db.modifyTable id fun t => (r.finalizeAlone s.db.platform t).1 := by
  unfold finalizeTable
  split
  · rename_i hnone
    rw [Database.modifyTable_eq_mapTables]
    refine (Database.mapTables_eq_self fun i t ht => if_neg ?_).symm
    rintro rfl
    cases hnone.symm.trans ht
  · rename_i t ht
    have hmodify : ∀ t', (r.finalizeAlone s.db.platform t).1 = t' →
        (s.db.modifyTable id fun _ => t') =
          s.db.modifyTable id fun u => (r.finalizeAlone s.db.platform u).1 := by
      rintro t' rfl
      refine Database.modifyTable_congr fun u hu => ?_
      cases ht.symm.trans hu
      rfl
    split
    · rename_i t' outcome hfinalize
      exact hmodify t' (congrArg Prod.fst hfinalize)
    · rename_i t' e hfinalize
      exact hmodify t' (congrArg Prod.fst hfinalize)

theorem error_finalizeTable_eq_none_iff : (r.finalizeTable s id).error = none ↔
    ∀ t, s.db.table? id = some t →
      ∃ outcome, (r.finalizeAlone s.db.platform t).2 = .ok outcome := by
  unfold finalizeTable finalizeAlone
  split
  · rename_i hnone
    refine iff_of_true rfl fun t ht => ?_
    cases hnone.symm.trans ht
  · rename_i t ht
    split
    · rename_i t' outcome hfinalize
      refine iff_of_true rfl fun u hu => ?_
      cases ht.symm.trans hu
      exact ⟨outcome, congrArg Prod.snd hfinalize⟩
    · rename_i t' e hfinalize
      refine iff_of_false (by simp) fun hall => ?_
      obtain ⟨outcome, houtcome⟩ := hall t ht
      rw [hfinalize] at houtcome
      cases houtcome

theorem report_finalizeTable {outcome : FinalizeOutcome} (h : r.outcome? s.db id = some outcome) :
    (r.finalizeTable s id).state.report = s.report.addFinalized outcome := by
  obtain ⟨t, ht, houtcome⟩ := Option.bind_eq_some_iff.1 h
  unfold finalizeTable finalizeAlone at *
  rw [ht]
  dsimp only
  split
  · rename_i t' outcome' hfinalize
    rw [hfinalize] at houtcome
    cases houtcome
    rfl
  · rename_i t' e hfinalize
    rw [hfinalize] at houtcome
    cases houtcome

/-- A visit to one table changes nothing for the visits to the others. -/
theorem along_finalizeTable {ids : List TableId} (hnodup : ids.Nodup) (s : Resolution) :
    ((Walk.along r.finalizeTable s ids).error = none ↔ ∀ id ∈ ids, ∀ t, s.db.table? id = some t →
      ∃ outcome, (r.finalizeAlone s.db.platform t).2 = .ok outcome) ∧
    ((Walk.along r.finalizeTable s ids).error = none →
      (Walk.along r.finalizeTable s ids).state.db =
        s.db.mapSome ids fun t => (r.finalizeAlone s.db.platform t).1) := by
  induction ids generalizing s with
  | nil =>
    refine ⟨iff_of_true rfl (fun _ hid => nomatch hid), fun _ => ?_⟩
    exact (Database.mapTables_eq_self fun _ _ _ => rfl).symm
  | cons id rest ih =>
    obtain ⟨hnew, hnodup⟩ := List.nodup_cons.1 hnodup
    have hdb := db_finalizeTable r s id
    have hplatform : (r.finalizeTable s id).state.db.platform = s.db.platform := by
      rw [hdb]
      rfl
    -- no handle comes twice, so the rest finds its tables as they were
    have hothers : ∀ i ∈ rest, (r.finalizeTable s id).state.db.table? i = s.db.table? i := by
      intro i hi
      rw [hdb]
      exact Database.table?_modifyTable_of_ne (fun heq : i = id => hnew (heq ▸ hi)) _
    obtain ⟨herror, hstate⟩ := ih hnodup (r.finalizeTable s id).state
    rw [hplatform] at herror hstate
    constructor
    · rw [Walk.along_cons, Walk.error_andThen_eq_none_iff, error_finalizeTable_eq_none_iff, herror,
        List.forall_mem_cons]
      refine and_congr_right fun _ => forall_congr' fun i => forall_congr' fun hi => ?_
      rw [hothers i hi]
    · intro hnone
      rw [Walk.along_cons] at hnone ⊢
      obtain ⟨hfirst, hrest⟩ := Walk.error_andThen_eq_none_iff.1 hnone
      rw [Walk.state_andThen_of_error_eq_none hfirst, hstate hrest, hdb, Database.mapSome_cons hnew]

/-- **Finalizing is done table by table.** -/
theorem db_finalize (h : (r.finalize s).error = none) : (r.finalize s).state.db =
    s.db.mapTables fun _ t => (r.finalizeAlone s.db.platform t).1 := by
  rw [← Database.mapSome_tableIds]
  exact (along_finalizeTable s.db.nodup_tableIds s).2 h

/-- **When finalizing is refused.** A run goes through exactly if no table is refused. -/
theorem error_finalize_eq_none_iff : (r.finalize s).error = none ↔ ∀ t ∈ s.db.tables,
    ∃ outcome, (r.finalizeAlone s.db.platform t).2 = .ok outcome := by
  refine (along_finalizeTable s.db.nodup_tableIds s).1.trans ?_
  constructor
  · intro hall t ht
    obtain ⟨id, hid⟩ := Database.exists_table?_of_mem ht
    exact hall id (Database.mem_tableIds_iff.2 ⟨t, hid⟩) t hid
  · exact fun hall id _ t ht => hall t (List.mem_of_getElem? ht)

/-- The report is put together from what the tables come to. -/
theorem report_along_finalizeTable {ids : List TableId} (hnodup : ids.Nodup)
    (h : (Walk.along r.finalizeTable s ids).error = none) :
    (Walk.along r.finalizeTable s ids).state.report =
      (ids.filterMap (r.outcome? s.db)).foldl Report.addFinalized s.report := by
  induction ids generalizing s with
  | nil => rfl
  | cons id rest ih =>
    obtain ⟨hnew, hnodup⟩ := List.nodup_cons.1 hnodup
    rw [Walk.along_cons] at h ⊢
    obtain ⟨hfirst, hrest⟩ := Walk.error_andThen_eq_none_iff.1 h
    have hothers : ∀ i ∈ rest,
        r.outcome? (r.finalizeTable s id).state.db i = r.outcome? s.db i := by
      intro i hi
      rw [db_finalizeTable, outcome?,
        Database.table?_modifyTable_of_ne (fun heq : i = id => hnew (heq ▸ hi))]
      rfl
    rw [Walk.state_andThen_of_error_eq_none hfirst, ih hnodup hrest, List.filterMap_congr hothers]
    cases ht : s.db.table? id with
    | none =>
      have hoc : r.outcome? s.db id = none := by rw [outcome?, ht, Option.bind_none]
      have hstate : (r.finalizeTable s id).state = s := by
        unfold finalizeTable
        rw [ht]
      rw [List.filterMap_cons_none hoc, hstate]
    | some t =>
      obtain ⟨outcome, houtcome⟩ := error_finalizeTable_eq_none_iff.1 hfirst t ht
      have hoc : r.outcome? s.db id = some outcome := by
        rw [outcome?, ht, Option.bind_some, houtcome]
        rfl
      rw [List.filterMap_cons_some hoc, report_finalizeTable hoc, List.foldl_cons]

theorem report_finalize (h : (r.finalize s).error = none) : (r.finalize s).state.report =
    (s.db.tableIds.filterMap (r.outcome? s.db)).foldl Report.addFinalized s.report :=
  report_along_finalizeTable s.db.nodup_tableIds h

end Resolver

end RelSchema
