import RelSchema.Proofs.LinkRun

/-!
# Dangling references

What foreign keys name and the schema lacks can be read off the schema before anything is linked
(`Database.missing`). Linking never adds or removes a table, a key or a column name, so this list
decides both kinds of runs: a tolerant run warns of every entry in order, a strict run stops at the
first entry, and without entries the two do the same (`Resolver.link_strict_tolerant`).
-/

namespace RelSchema

/-! ## Lists -/

/-- Keeping what a test does not exclude. -/
theorem filterMap_unless {α β : Type} (p : α → Bool) (f : α → β) (l : List α) :
    (l.filterMap fun a => if p a = true then none else some (f a)) = (l.filter (!p ·)).map f := by
  induction l with
  | nil => rfl
  | cons a l ih =>
    rw [List.filterMap_cons, List.filter_cons]
    cases p a with
    | true => exact ih
    | false => exact congrArg (f a :: ·) ih

/-- Reading a list place by place. -/
theorem flatMap_range_getElem? {α β : Type} (l : List α) (f : α → List β) :
    ((List.range l.length).flatMap fun place => (l[place]?).elim [] f) = l.flatMap f := by
  have hmap : (List.range l.length).map (fun place => (l[place]?).elim [] f) = l.map f := by
    apply List.ext_getElem
    · simp
    · intro place h h'
      simp [List.length_map] at h'
      simp [h']
  rw [List.flatMap_def, hmap, List.flatMap_def]

/-! ## What is missing -/

namespace DanglingEnd

/-- The target table is not declared. -/
def missingTable (table : String) (key : ForeignKey) : DanglingEnd where
  error := .danglingForeignKey table key.name key.foreignTable
  code := .refMissingTable
  location := .ofConstraint table key.name

/-- The table that declares the key lacks a local column. -/
def missingLocalColumn (table : String) (key : ForeignKey) (column : String) : DanglingEnd where
  error := .danglingLocalColumn table key.name column
  code := .refMissingLocalColumn
  location := (Location.ofConstraint table key.name).withColumn column

/-- The target table lacks a referenced column; the place is given in the target. -/
def missingForeignColumn (table : String) (key : ForeignKey) (column : String) : DanglingEnd where
  error := .danglingForeignColumn table key.name key.foreignTable column
  code := .refMissingForeignColumn
  location := (Location.ofConstraint key.foreignTable key.name).withColumn column

end DanglingEnd

/-- What a foreign key of the table names and the database lacks: the target, the local columns,
and the referenced columns if there is a target to look for them in. -/
def Table.missing (db : Database) (t : Table) (key : ForeignKey) : List DanglingEnd :=
  let locals := (key.localColumns.filter (!t.hasColumn ·)).map (.missingLocalColumn t.name key)
  match db.tableByName? key.foreignTable with
  | none => .missingTable t.name key :: locals
  | some target =>
    locals ++
      (key.foreignColumns.filter (!target.hasColumn ·)).map (.missingForeignColumn t.name key)

/-- What the foreign keys of a database name and the database lacks, in table order, then key
order. -/
def Database.missing (db : Database) : List DanglingEnd :=
  db.tables.flatMap fun t => t.foreignKeys.flatMap (t.missing db)

/-- The warnings of a report, in order. -/
def Report.warnings (r : Report) : List Diagnostic := r.diagnostics.filter (·.severity = .warn)

/-- The same resolver with this way of checking references. -/
def Resolver.checking (r : Resolver) (check : ReferenceCheck) : Resolver := { r with check }

namespace Database

theorem hasTable_eq_isSome_tableByName? (db : Database) (name : String) :
    db.hasTable name = (db.tableByName? name).isSome := by
  rw [hasTable, tableByName?]
  cases hid : db.tableId? name with
  | none => rfl
  | some id =>
    rw [tableId?, Option.map_eq_some_iff] at hid
    obtain ⟨place, hplace, rfl⟩ := hid
    obtain ⟨hlt, -⟩ := List.findIdx?_eq_some_iff_getElem.1 hplace
    simp [table?, hlt]

end Database

namespace DeclaredKey

variable {db db' : Database} {k : DeclaredKey}

/-- The ends of the key that dangle, in the order they are linked. -/
def danglingEnds (k : DeclaredKey) (db : Database) : List DanglingEnd :=
  k.key.ends.filterMap (k.dangling? db)

theorem danglingEnds_congr (h : db.outline = db'.outline) (k : DeclaredKey) :
    k.danglingEnds db = k.danglingEnds db' := by
  have hend : k.dangling? db = k.dangling? db' := funext (Database.dangling?_congr h k)
  rw [danglingEnds, danglingEnds, hend]

/-- Going through the ends of a key finds what the key lacks. -/
theorem danglingEnds_eq_missing {id : TableId} {t : Table} (ht : db.table? id = some t)
    (hk : k ∈ db.declaredKeys id) : k.danglingEnds db = t.missing db k.key := by
  obtain ⟨t', ht', hname, rfl, -⟩ := Database.mem_declaredKeys_iff.1 hk
  cases ht.symm.trans ht'
  have hlocals : k.key.localColumns.filterMap (k.dangling? db ∘ .localColumn) =
      (k.key.localColumns.filter (!t.hasColumn ·)).map (.missingLocalColumn t.name k.key) := by
    rw [← filterMap_unless]
    simp only [Function.comp_def, dangling?, ht, hname, Option.any_some]
    rfl
  rw [danglingEnds, ForeignKey.ends, List.filterMap_cons, List.filterMap_append,
    List.filterMap_map, List.filterMap_map, hlocals, Table.missing]
  cases htarget : db.tableByName? k.key.foreignTable with
  | none =>
    have htable : k.dangling? db .target = some (.missingTable t.name k.key) := by
      simp [dangling?, Database.hasTable_eq_isSome_tableByName?, htarget, hname,
        DanglingEnd.missingTable]
    have hforeigns : k.key.foreignColumns.filterMap (k.dangling? db ∘ .foreignColumn) = [] := by
      simp [dangling?, htarget]
    rw [htable, hforeigns, List.append_nil]
  | some target =>
    have htable : k.dangling? db .target = none := by
      simp [dangling?, Database.hasTable_eq_isSome_tableByName?, htarget]
    have hforeigns : k.key.foreignColumns.filterMap (k.dangling? db ∘ .foreignColumn) =
        (k.key.foreignColumns.filter (!target.hasColumn ·)).map
          (.missingForeignColumn t.name k.key) := by
      rw [← filterMap_unless]
      simp only [Function.comp_def, dangling?, htarget, hname, Option.all_some]
      rfl
    rw [htable, hforeigns]

end DeclaredKey

namespace Database

variable {db : Database}

theorem flatMap_declaredKeys_danglingEnds (db : Database) (id : TableId) :
    (db.declaredKeys id).flatMap (·.danglingEnds db) =
      (db.table? id).elim [] fun t => t.foreignKeys.flatMap (t.missing db) := by
  cases ht : db.table? id with
  | none => rw [declaredKeys, ht]; rfl
  | some t =>
    have hends : (db.declaredKeys id).flatMap (·.danglingEnds db) =
        (db.declaredKeys id).flatMap fun k => t.missing db k.key :=
      List.flatMap_congr fun k hk => k.danglingEnds_eq_missing ht hk
    have hkeys : (db.declaredKeys id).map (·.key) = t.foreignKeys := by
      rw [declaredKeys, ht, List.map_map]
      exact List.zipIdx_map_fst ..
    rw [hends, Option.elim_some, ← hkeys, List.flatMap_map]

/-- What the walk over all keys comes upon is what is missing. -/
theorem flatMap_allKeys_danglingEnds (db : Database) :
    db.allKeys.flatMap (·.danglingEnds db) = db.missing := by
  rw [allKeys, List.flatMap_assoc, tableIds, List.flatMap_map, missing,
    ← flatMap_range_getElem? db.tables]
  exact List.flatMap_congr fun place _ => db.flatMap_declaredKeys_danglingEnds ⟨place⟩

end Database

/-! ## What a run notes that is not refused -/

namespace LinkState

variable {check : ReferenceCheck} {k : DeclaredKey} {s : LinkState} {e : KeyEnd}

/-- A strict run that goes on has met no dangling end, so it has nothing to note. -/
theorem diagnostics_visitEnd (h : (visitEnd check k s e).error = none) :
    (visitEnd check k s e).state.outcome.diagnostics =
      s.outcome.diagnostics ++ (k.dangling? s.db e).toList.map (·.warning) := by
  unfold visitEnd at h ⊢
  cases hd : k.dangling? s.db e <;> cases check <;> simp_all

theorem diagnostics_synthesizeFor (s : LinkState) (k : DeclaredKey) :
    (s.synthesizeFor k).outcome.diagnostics = s.outcome.diagnostics := by
  have hone : ∀ (s : LinkState) (id : TableId),
      (s.synthesize id).outcome.diagnostics = s.outcome.diagnostics := fun _ _ => rfl
  unfold synthesizeFor
  dsimp only
  split
  · split
    · split
      · exact hone s _
      · exact (hone _ _).trans (hone s _)
    · exact hone s _
  · rfl

/-- The walk over the ends of a key, over a database with this outline. -/
theorem diagnostics_visitKey {db : Database} (h : s.db.outline = db.outline)
    (hok : (visitKey check s k).error = none) :
    (visitKey check s k).state.outcome.diagnostics =
      s.outcome.diagnostics ++ (k.danglingEnds db).map (·.warning) := by
  have hnone : (Walk.along (visitEnd check k) s.counted k.key.ends).error = none :=
    error_visitKey_eq_none_iff.1 hok
  have hends : (Walk.along (visitEnd check k) s.counted k.key.ends).state.outcome.diagnostics =
      s.outcome.diagnostics ++
        (k.key.ends.flatMap fun e => (k.dangling? db e).toList).map (·.warning) :=
    Walk.view_along_append (P := fun v : LinkState => v.db.outline = db.outline)
      (fun v => v.outcome.diagnostics) _
      (fun v e hv => (outline_visitEnd check k v e).trans hv)
      (fun v e _ hv he => by rw [diagnostics_visitEnd he, Database.dangling?_congr hv]) h hnone
  have hstate : (visitKey check s k).state =
      (Walk.along (visitEnd check k) s.counted k.key.ends).state.synthesizeFor k :=
    Walk.state_andThen_of_error_eq_none hnone
  rw [hstate, diagnostics_synthesizeFor, hends, DeclaredKey.danglingEnds,
    List.filterMap_eq_flatMap_toList]

end LinkState

namespace Report

theorem warnings_add (r : Report) (d : Diagnostic) :
    (r.add d).warnings = r.warnings ++ if d.severity = .warn then [d] else [] := by
  rw [warnings, add, List.filter_append, List.filter_singleton, cond_eq_ite]
  simp only [decide_eq_true_eq]
  rfl

theorem warnings_addAll {ds : List Diagnostic} (h : ∀ d ∈ ds, d.severity = .warn) (r : Report) :
    (r.addAll ds).warnings = r.warnings ++ ds := by
  induction ds generalizing r with
  | nil => exact (List.append_nil _).symm
  | cons d rest ih =>
    obtain ⟨hd, hrest⟩ := List.forall_mem_cons.1 h
    show ((r.add d).addAll rest).warnings = _
    rw [ih hrest, warnings_add, if_pos hd, List.append_assoc, List.singleton_append]

/-- Added indices are reported as information. -/
theorem warnings_foldl_addSynthesized (r : Report) (indices : List SynthesizedIndex) :
    (indices.foldl addSynthesized r).warnings = r.warnings := by
  induction indices generalizing r with
  | nil => rfl
  | cons index rest ih =>
    have hone : (r.addSynthesized index).warnings = r.warnings :=
      (warnings_add _ _).trans (List.append_nil _)
    exact (ih _).trans hone

theorem warnings_addLinked {outcome : LinkOutcome}
    (h : ∀ d ∈ outcome.diagnostics, d.severity = .warn) (r : Report) :
    (r.addLinked outcome).warnings = r.warnings ++ outcome.diagnostics := by
  rw [addLinked, warnings_foldl_addSynthesized, warnings_addAll h]
  rfl

end Report

/-! ## Where a strict run stops -/

namespace LinkState

variable {k : DeclaredKey} {s : LinkState} {e : KeyEnd}

theorem error_visitEnd_strict (k : DeclaredKey) (s : LinkState) (e : KeyEnd) :
    (visitEnd .strict k s e).error = (k.dangling? s.db e).toList.head?.map (·.error) := by
  unfold visitEnd
  cases k.dangling? s.db e <;> rfl

theorem error_visitKey (check : ReferenceCheck) (s : LinkState) (k : DeclaredKey) :
    (visitKey check s k).error = (Walk.along (visitEnd check k) s.counted k.key.ends).error := by
  show (Walk.andThen _ _).error = _
  rw [Walk.andThen]
  split
  · rename_i hnone
    exact hnone.symm
  · rfl

theorem error_visitKey_strict {db : Database} (h : s.db.outline = db.outline) (k : DeclaredKey) :
    (visitKey .strict s k).error = (k.danglingEnds db).head?.map (·.error) := by
  rw [error_visitKey, DeclaredKey.danglingEnds, List.filterMap_eq_flatMap_toList]
  exact Walk.error_along_flatMap (P := fun v : LinkState => v.db.outline = db.outline) _
    (fun v e hv => (outline_visitEnd .strict k v e).trans hv)
    (fun v e _ hv => by rw [error_visitEnd_strict, Database.dangling?_congr hv]) h

/-- Where nothing dangles, the two ways of checking do the same. -/
theorem visitKey_strict_eq_tolerant {db : Database} (h : s.db.outline = db.outline)
    (hk : k.danglingEnds db = []) : visitKey .strict s k = visitKey .tolerant s k := by
  have hend : ∀ v : LinkState, ∀ e ∈ k.key.ends, v.db.outline = db.outline →
      visitEnd .strict k v e = visitEnd .tolerant k v e := by
    intro v e he hv
    have hnone : k.dangling? v.db e = none := by
      rw [Database.dangling?_congr hv]
      exact List.filterMap_eq_nil_iff.1 hk e he
    unfold visitEnd
    rw [hnone]
  have hends : Walk.along (visitEnd .strict k) s.counted k.key.ends =
      Walk.along (visitEnd .tolerant k) s.counted k.key.ends :=
    Walk.along_congr (P := fun v : LinkState => v.db.outline = db.outline)
      (fun v e hv => (outline_visitEnd .strict k v e).trans hv) hend h
  exact congrArg (Walk.andThen · fun s => { state := s.synthesizeFor k }) hends

end LinkState

namespace Resolver

variable {r : Resolver} {s : Resolution} {db : Database}

theorem error_keyWalk_tolerant (r : Resolver) (db : Database) (id : TableId) :
    ((r.checking .tolerant).keyWalk db id).error = none := by
  have hkeys : ((r.checking .tolerant).keyWalk db id).error = none ↔
      ∀ k ∈ db.declaredKeys id, True :=
    Walk.error_along_eq_none_iff (P := fun _ : LinkState => True) (fun _ _ _ => trivial)
      (fun _ _ _ _ => iff_true_intro (LinkState.error_visitKey_iff.2 fun _ _ => Or.inl rfl)) trivial
  exact hkeys.2 fun _ _ => trivial

/-- What a run warns of at one table. -/
theorem diagnostics_keyWalk {id : TableId} (h : (r.keyWalk db id).error = none) :
    (r.keyWalk db id).state.outcome.diagnostics =
      ((db.declaredKeys id).flatMap (·.danglingEnds db)).map (·.warning) :=
  Walk.view_along_append (P := fun v : LinkState => v.db.outline = db.outline)
    (fun v => v.outcome.diagnostics) _
    (fun v k hv => (LinkState.outline_visitKey r.check v k).trans hv)
    (fun _ _ _ hv hk => LinkState.diagnostics_visitKey hv hk) rfl h

theorem error_keyWalk_strict (r : Resolver) (db : Database) (id : TableId) :
    ((r.checking .strict).keyWalk db id).error =
      ((db.declaredKeys id).flatMap (·.danglingEnds db)).head?.map (·.error) :=
  Walk.error_along_flatMap (P := fun v : LinkState => v.db.outline = db.outline) _
    (fun v k hv => (LinkState.outline_visitKey .strict v k).trans hv)
    (fun _ k _ hv => LinkState.error_visitKey_strict hv k) rfl

/-- The keys that a table declares and what dangles of them stay the same in the course of
linking. -/
theorem flatMap_danglingEnds_congr (h : s.db.outline = db.outline) (id : TableId) :
    (s.db.declaredKeys id).flatMap (·.danglingEnds s.db) =
      (db.declaredKeys id).flatMap (·.danglingEnds db) := by
  rw [Database.declaredKeys_eq_outline, Database.declaredKeys_eq_outline, h]
  simp only [DeclaredKey.danglingEnds_congr h]

theorem warnings_linkTable_of_ok (h : s.db.outline = db.outline) {id : TableId}
    (hok : (r.linkTable s id).error = none) : (r.linkTable s id).state.report.warnings =
      s.report.warnings ++ ((db.declaredKeys id).flatMap (·.danglingEnds db)).map (·.warning) := by
  have hwalk : (r.keyWalk s.db id).error = none := (error_linkTable r s id).symm.trans hok
  rw [report_linkTable hok, Report.warnings_addLinked, diagnostics_keyWalk hwalk,
    flatMap_danglingEnds_congr h]
  rw [diagnostics_keyWalk hwalk]
  exact List.forall_mem_map.2 fun _ _ => rfl

theorem warnings_linkTable (r : Resolver) (h : s.db.outline = db.outline) (id : TableId) :
    ((r.checking .tolerant).linkTable s id).state.report.warnings =
      s.report.warnings ++ ((db.declaredKeys id).flatMap (·.danglingEnds db)).map (·.warning) :=
  warnings_linkTable_of_ok h ((error_linkTable _ s id).trans (r.error_keyWalk_tolerant s.db id))

theorem error_linkTable_strict (r : Resolver) (h : s.db.outline = db.outline) (id : TableId) :
    ((r.checking .strict).linkTable s id).error =
      ((db.declaredKeys id).flatMap (·.danglingEnds db)).head?.map (·.error) := by
  rw [error_linkTable, error_keyWalk_strict, flatMap_danglingEnds_congr h]

theorem linkTable_strict_eq_tolerant (r : Resolver) {id : TableId}
    (h : (s.db.declaredKeys id).flatMap (·.danglingEnds s.db) = []) :
    (r.checking .strict).linkTable s id = (r.checking .tolerant).linkTable s id := by
  have hwalk : Walk.along (LinkState.visitKey .strict) { db := s.db } (s.db.declaredKeys id) =
      Walk.along (LinkState.visitKey .tolerant) { db := s.db } (s.db.declaredKeys id) :=
    Walk.along_congr (P := fun v : LinkState => v.db.outline = s.db.outline)
      (fun v k hv => (LinkState.outline_visitKey .strict v k).trans hv)
      (fun v k hk hv => LinkState.visitKey_strict_eq_tolerant hv (List.flatMap_eq_nil_iff.1 h k hk))
      rfl
  have htable : s.db.linkTable .strict id = s.db.linkTable .tolerant id := by
    rw [Database.linkTable, Database.linkTable, hwalk]
  unfold linkTable
  rw [checking, checking, htable]

/-- **Checking references, strictly and tolerantly.** A tolerant run gets to the end and warns of
all that is missing, in order. A strict run is refused exactly if something is missing, with the
error that the first of these warnings words; if nothing is missing, both end in the same database
with the same report. -/
theorem link_strict_tolerant (r : Resolver) (s : Resolution) :
    ((r.checking .tolerant).link s).error = none ∧
    ((r.checking .tolerant).link s).state.report.warnings =
      s.report.warnings ++ s.db.missing.map (·.warning) ∧
    (((r.checking .strict).link s).error.isSome = true ↔ s.db.missing ≠ []) ∧
    ((r.checking .strict).link s).error = s.db.missing.head?.map (·.error) ∧
    ((r.checking .strict).link s).error.map (·.message) =
      (s.db.missing.map (·.warning)).head?.map (·.message) ∧
    (s.db.missing = [] → (r.checking .strict).link s = (r.checking .tolerant).link s) := by
  have hmissing : s.db.tableIds.flatMap
      (fun id => (s.db.declaredKeys id).flatMap (·.danglingEnds s.db)) = s.db.missing := by
    rw [← s.db.flatMap_allKeys_danglingEnds, Database.allKeys, List.flatMap_assoc]
  have hnone : ((r.checking .tolerant).link s).error = none :=
    error_link_eq_none_iff.2 (Or.inl rfl)
  have hwarnings : ((r.checking .tolerant).link s).state.report.warnings =
      s.report.warnings ++ s.db.missing.map (·.warning) := by
    rw [← hmissing]
    exact Walk.view_along_append (P := fun v : Resolution => v.db.outline = s.db.outline)
      (fun v => v.report.warnings) _
      (fun v id hv => (outline_linkTable (r.checking .tolerant) v id).trans hv)
      (fun v id _ hv _ => warnings_linkTable r hv id) rfl hnone
  have hfirst : ((r.checking .strict).link s).error = s.db.missing.head?.map (·.error) := by
    rw [← hmissing]
    exact Walk.error_along_flatMap (P := fun v : Resolution => v.db.outline = s.db.outline) _
      (fun v id hv => (outline_linkTable (r.checking .strict) v id).trans hv)
      (fun v id _ hv => error_linkTable_strict r hv id) rfl
  refine ⟨hnone, hwarnings, ?_, hfirst, ?_, fun hempty => ?_⟩
  · rw [hfirst, Option.isSome_map, List.isSome_head?]
  · rw [hfirst, List.head?_map, Option.map_map, Option.map_map]
    rfl
  · rw [← hmissing, List.flatMap_eq_nil_iff] at hempty
    refine Walk.along_congr (P := fun v : Resolution => v.db.outline = s.db.outline)
      (fun v id hv => (outline_linkTable (r.checking .strict) v id).trans hv)
      (fun v id hid hv => linkTable_strict_eq_tolerant r ?_) rfl
    rw [flatMap_danglingEnds_congr hv]
    exact hempty id hid

/-- Without a target there is no table to look for the referenced column in. -/
example : (Database.missing
    { name := "shop"
      tables := [{ name := "review"
                   foreignKeys := [{ foreignTable := "book", references := [⟨"book_id", "id"⟩] }] }]
      }).map (·.code) = [.refMissingTable, .refMissingLocalColumn] := by
  decide +kernel

end Resolver

end RelSchema
