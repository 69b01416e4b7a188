import RelSchema.Proofs.TableLinking

/-!
# Runs of linking

A run of linking that is not refused links every table by itself, through all keys of the database
in order (`Resolver.db_link`). What dangles depends on the outline of the database, which linking does
not change, so a strict run is refused exactly when something dangles before it starts
(`Resolver.error_link_eq_none_iff`).
-/

namespace RelSchema

namespace Database

variable {db db' : Database}

theorem hasColumn_eq_contains (t : Table) (column : String) :
    t.hasColumn column = t.columnNames.contains column := by
  rw [Bool.eq_iff_iff, Table.hasColumn_iff, List.contains_iff_mem]

theorem dangling?_congr (h : db.outline = db'.outline) (k : DeclaredKey) (e : KeyEnd) :
    k.dangling? db e = k.dangling? db' e := by
  have hany : ∀ (db : Database) (id : TableId) (column : String),
      (db.table? id).any (·.hasColumn column) =
        (db.outline[id.index]?).any (·.2.2.contains column) := by
    intro db id column
    rw [table?, outline, List.getElem?_map]
    cases db.tables[id.index]? with
    | none => rfl
    | some t => exact hasColumn_eq_contains t column
  have hall : ∀ (db : Database) (name column : String),
      (db.tableByName? name).all (·.hasColumn column) =
        ((db.tableId? name).bind fun id => db.outline[id.index]?).all (·.2.2.contains column) := by
    intro db name column
    rw [tableByName?]
    cases db.tableId? name with
    | none => rfl
    | some id =>
      simp only [Option.bind_some, outline, List.getElem?_map]
      rw [table?]
      cases db.tables[id.index]? with
      | none => rfl
      | some t => exact hasColumn_eq_contains t column
  cases e with
  | target =>
    have htable : db.hasTable k.key.foreignTable = db'.hasTable k.key.foreignTable := by
      rw [hasTable, hasTable, tableId?_congr h]
    rw [DeclaredKey.dangling?, DeclaredKey.dangling?, htable]
  | localColumn column => simp only [DeclaredKey.dangling?, hany, h]
  | foreignColumn column => simp only [DeclaredKey.dangling?, hall, h, tableId?_congr h]

/-! ## Folds over ends and keys -/

theorem outline_mapTables_of_declaration {f : TableId → Table → Table}
    (h : ∀ id t, (f id t).declaration = t.declaration) : (db.mapTables f).outline = db.outline :=
  outline_mapTables fun id t _ => Table.outline_eq_of_declaration_eq (h id t)

theorem outline_connect (k : DeclaredKey) (db : Database) (e : KeyEnd) :
    (k.connect db e).outline = db.outline := by
  rw [k.connect_eq_mapTables]
  exact outline_mapTables_of_declaration fun id t => Table.declaration_linkEnd db id k t e

theorem foldl_connect (k : DeclaredKey) (db : Database) (ends : List KeyEnd) :
    ends.foldl k.connect db = db.mapTables fun id t => ends.foldl (Table.linkEnd db id k) t := by
  induction ends generalizing db with
  | nil => exact (mapTables_eq_self fun _ _ _ => rfl).symm
  | cons e rest ih =>
    have hend : ∀ id, Table.linkEnd (k.connect db e) id k = Table.linkEnd db id k := by
      intro id
      funext t e'
      exact Table.linkEnd_congr (outline_connect k db e) e'
    rw [List.foldl_cons, ih]
    simp only [hend]
    rw [k.connect_eq_mapTables, mapTables_mapTables]
    rfl

/-- Completing one table by its handle. -/
theorem db_synthesizeIndices (db : Database) (id : TableId) :
    (db.synthesizeIndices id).1 =
      db.mapTables fun i t => if i = id then t.completedIn db else t := by
  rw [synthesizeIndices]
  cases ht : db.table? id with
  | none =>
    refine (mapTables_eq_self fun i t hi => if_neg ?_).symm
    rintro rfl
    rw [ht] at hi
    cases hi
  | some t =>
    dsimp only
    rw [modifyTable_eq_mapTables]
    refine mapTables_congr fun i t' hi => ?_
    by_cases hid : i = id
    · subst hid
      cases ht.symm.trans hi
      rfl
    · rw [if_neg hid, if_neg hid]

/-- Linking one key, every table by itself. -/
def linkKey (db : Database) (k : DeclaredKey) : Database :=
  db.mapTables fun id t => t.linkKey db id k

theorem outline_linkKey (db : Database) (k : DeclaredKey) : (db.linkKey k).outline = db.outline :=
  outline_mapTables_of_declaration fun id t => Table.declaration_linkKey db id t k

/-- Linking keys one after the other takes every table through all of them. -/
theorem foldl_linkKey (db : Database) (keys : List DeclaredKey) :
    keys.foldl linkKey db = db.mapTables fun id t => t.linkAll db id keys := by
  induction keys generalizing db with
  | nil => exact (mapTables_eq_self fun _ _ _ => rfl).symm
  | cons k rest ih =>
    rw [List.foldl_cons, ih, linkKey, mapTables_mapTables]
    refine mapTables_congr fun id t _ => ?_
    show Table.linkAll (db.linkKey k) id rest _ = Table.linkAll db id rest _
    exact Table.linkAll_congr (outline_linkKey db k) rfl rest

/-- Linking table by table is linking key by key. -/
theorem foldl_declaredKeys (db : Database) (ids : List TableId) :
    ids.foldl (fun d id => (d.declaredKeys id).foldl linkKey d) db =
      (ids.flatMap db.declaredKeys).foldl linkKey db := by
  have houtline : ∀ (keys : List DeclaredKey) (d : Database),
      (keys.foldl linkKey d).outline = d.outline := by
    intro keys
    induction keys with
    | nil => exact fun _ => rfl
    | cons k rest ih => exact fun d => (ih _).trans (outline_linkKey d k)
  -- the keys are read off the database as it is then, which still has the first outline
  have hids : ∀ d : Database, d.outline = db.outline →
      ids.foldl (fun d id => (d.declaredKeys id).foldl linkKey d) d =
        (ids.flatMap db.declaredKeys).foldl linkKey d := by
    induction ids with
    | nil => exact fun _ _ => rfl
    | cons id rest ih =>
      intro d hd
      have hkeys : d.declaredKeys id = db.declaredKeys id := by
        rw [declaredKeys_eq_outline, declaredKeys_eq_outline, hd]
      rw [List.foldl_cons, List.flatMap_cons, List.foldl_append, hkeys,
        ih _ ((houtline _ d).trans hd)]
  exact hids db rfl

/-- The database with all its keys linked. -/
def linked (db : Database) : Database := db.mapTables fun id t => t.linkAll db id db.allKeys

theorem outline_linked (db : Database) : db.linked.outline = db.outline :=
  outline_mapTables_of_declaration fun id t => Table.declaration_linkAll db id db.allKeys t

@[simp] theorem table?_linked (db : Database) (id : TableId) :
    db.linked.table? id = (db.table? id).map fun t => t.linkAll db id db.allKeys :=
  table?_mapTables _ db id

end Database

/-! ## Visits -/

namespace LinkState

variable {check : ReferenceCheck} {k : DeclaredKey} {s : LinkState} {e : KeyEnd}

theorem error_visitEnd_eq_none_iff :
    (visitEnd check k s e).error = none ↔ check = .tolerant ∨ k.dangling? s.db e = none := by
  unfold visitEnd
  cases hd : k.dangling? s.db e <;> cases check <;> simp

/-- Whether the end is refused, skipped or linked: nothing happens to the database, or the end is
connected. -/
theorem db_visitEnd_cases (check : ReferenceCheck) (k : DeclaredKey) (s : LinkState) (e : KeyEnd) :
    (visitEnd check k s e).state.db = s.db ∨
      (visitEnd check k s e).state.db = k.connect s.db e := by
  unfold visitEnd
  cases k.dangling? s.db e <;> cases check <;> simp

/-- Whatever comes of it, a visit to an end leaves the outline alone. -/
theorem outline_visitEnd (check : ReferenceCheck) (k : DeclaredKey) (s : LinkState) (e : KeyEnd) :
    (visitEnd check k s e).state.db.outline = s.db.outline := by
  rcases db_visitEnd_cases check k s e with hdb | hdb
  · rw [hdb]
  · rw [hdb, Database.outline_connect]

theorem db_visitEnd (h : (visitEnd check k s e).error = none) :
    (visitEnd check k s e).state.db = k.connect s.db e := by
  unfold visitEnd at h ⊢
  cases hd : k.dangling? s.db e with
  | none => rfl
  | some d =>
    cases check with
    | tolerant => exact (DeclaredKey.connect_of_dangling hd).symm
    | strict => simp [hd] at h

theorem db_synthesize (s : LinkState) (id : TableId) : (s.synthesize id).db =
    s.db.mapTables fun i t => if i = id then t.completedIn s.db else t :=
  s.db.db_synthesizeIndices id

theorem outline_synthesize (s : LinkState) (id : TableId) :
    (s.synthesize id).db.outline = s.db.outline := by
  rw [db_synthesize]
  refine Database.outline_mapTables_of_declaration fun i t => ?_
  split
  · exact Table.declaration_completedIn s.db t
  · rfl

/-- Completing one table does not change what another one lacks. -/
theorem db_synthesize_synthesize (s : LinkState) {id other : TableId} (h : other ≠ id) :
    ((s.synthesize id).synthesize other).db =
      s.db.mapTables fun i t => if id = i ∨ other = i then t.completedIn s.db else t := by
  have hcompleted : ∀ t : Table, t.completedIn (s.synthesize id).db = t.completedIn s.db :=
    Table.completedIn_of_outline_eq (outline_synthesize s id)
  have hsecond : ((s.synthesize id).synthesize other).db = (s.synthesize id).db.mapTables fun i t =>
      if i = other then t.completedIn s.db else t := by
    rw [db_synthesize]
    simp only [hcompleted]
  rw [hsecond, db_synthesize, Database.mapTables_mapTables]
  refine Database.mapTables_congr fun i t _ => ?_
  by_cases hother : i = other
  · subst hother
    rw [if_pos rfl, if_neg h, if_pos (Or.inr rfl)]
  · rw [if_neg hother]
    by_cases hid : i = id
    · rw [if_pos hid, if_pos (Or.inl hid.symm)]
    · rw [if_neg hid, if_neg (not_or.2 ⟨Ne.symm hid, Ne.symm hother⟩)]

/-- Both tables of a key are completed, once if they are the same. -/
theorem db_synthesizeFor (s : LinkState) (k : DeclaredKey) :
    (s.synthesizeFor k).db = s.db.mapTables fun id t =>
      if s.db.platform.needsKeyIndices = true ∧ k.Touches s.db id then t.completedIn s.db
      else t := by
  unfold synthesizeFor
  split
  · rename_i hneeds
    simp only [Database.tableId?_congr (outline_synthesize s _), hneeds, true_and]
    cases htarget : s.db.tableId? k.key.foreignTable with
    | none =>
      dsimp only
      rw [db_synthesize]
      refine Database.mapTables_congr fun id t _ => ?_
      simp only [DeclaredKey.Touches, htarget, reduceCtorEq, or_false, eq_comm]
    | some target =>
      dsimp only
      split
      · rename_i hsame
        rw [db_synthesize]
        refine Database.mapTables_congr fun id t _ => ?_
        simp only [DeclaredKey.Touches, htarget, hsame, Option.some.injEq, or_self, eq_comm]
      · rename_i hdiffer
        rw [db_synthesize_synthesize s hdiffer]
        refine Database.mapTables_congr fun id t _ => ?_
        simp only [DeclaredKey.Touches, htarget, Option.some.injEq]
  · rename_i hneeds
    exact (Database.mapTables_eq_self fun id t _ => if_neg fun h => hneeds h.1).symm

theorem outline_synthesizeFor (s : LinkState) (k : DeclaredKey) :
    (s.synthesizeFor k).db.outline = s.db.outline := by
  rw [db_synthesizeFor]
  refine Database.outline_mapTables_of_declaration fun id t => ?_
  split
  · exact Table.declaration_completedIn _ t
  · rfl

/-- What the walk over the ends of a key starts from. -/
def counted (s : LinkState) : LinkState :=
  { s with outcome := { s.outcome with foreignKeys := s.outcome.foreignKeys + 1 } }

theorem error_visitKey_eq_none_iff : (visitKey check s k).error = none ↔
    (Walk.along (visitEnd check k) s.counted k.key.ends).error = none := by
  show (Walk.andThen _ _).error = none ↔ _
  rw [Walk.error_andThen_eq_none_iff]
  exact and_iff_left rfl

/-- Linking a key that is not refused links every table by itself. -/
theorem db_visitKey (h : (visitKey check s k).error = none) :
    (visitKey check s k).state.db = s.db.linkKey k := by
  have hends := error_visitKey_eq_none_iff.1 h
  have hdb : (Walk.along (visitEnd check k) s.counted k.key.ends).state.db =
      s.db.mapTables fun id t => k.key.ends.foldl (Table.linkEnd s.db id k) t :=
    (Walk.view_along LinkState.db k.connect (fun _ _ => db_visitEnd) hends).trans
      (s.db.foldl_connect k k.key.ends)
  have houtline : (s.db.mapTables fun id t =>
      k.key.ends.foldl (Table.linkEnd s.db id k) t).outline = s.db.outline :=
    Database.outline_mapTables_of_declaration fun id t =>
      Table.declaration_linkEnds s.db id k t k.key.ends
  -- indices are added after all ends are connected, and over the same outline
  have hstate : (visitKey check s k).state =
      (Walk.along (visitEnd check k) s.counted k.key.ends).state.synthesizeFor k :=
    Walk.state_andThen_of_error_eq_none hends
  rw [hstate, db_synthesizeFor, hdb, Database.mapTables_mapTables]
  refine Database.mapTables_congr fun id t _ => ?_
  exact ite_congr (propext (and_congr_right fun _ => k.touches_congr houtline id))
    (fun _ => Table.completedIn_of_outline_eq houtline _) fun _ => rfl

/-- Whatever comes of it, a visit to a key leaves the outline alone. -/
theorem outline_visitKey (check : ReferenceCheck) (s : LinkState) (k : DeclaredKey) :
    (visitKey check s k).state.db.outline = s.db.outline := by
  have hends : (Walk.along (visitEnd check k) s.counted k.key.ends).state.db.outline =
      s.db.outline :=
    Walk.along_invariant (P := fun v : LinkState => v.db.outline = s.db.outline)
      (fun v e _ hv => (outline_visitEnd check k v e).trans hv) rfl
  unfold visitKey Walk.andThen
  dsimp only
  split
  · exact (outline_synthesizeFor _ k).trans hends
  · exact hends

theorem error_visitKey_iff : (visitKey check s k).error = none ↔
    ∀ e ∈ k.key.ends, check = .tolerant ∨ k.dangling? s.db e = none := by
  rw [error_visitKey_eq_none_iff]
  refine Walk.error_along_eq_none_iff (P := fun v : LinkState => v.db.outline = s.db.outline)
    (fun v e hv => (outline_visitEnd check k v e).trans hv) ?_ rfl
  intro v e _ hv
  rw [error_visitEnd_eq_none_iff, Database.dangling?_congr hv]

end LinkState

namespace Resolver

variable {r : Resolver} {s : Resolution} {id : TableId}

/-- The walk over the keys of one table. -/
def keyWalk (r : Resolver) (db : Database) (id : TableId) : Walk LinkState :=
  Walk.along (LinkState.visitKey r.check) { db } (db.declaredKeys id)

theorem db_linkTable (r : Resolver) (s : Resolution) (id : TableId) :
    (r.linkTable s id).state.db = (r.keyWalk s.db id).state.db := by
  unfold linkTable Database.linkTable keyWalk
  dsimp only
  cases (Walk.along (LinkState.visitKey r.check) { db := s.db } (s.db.declaredKeys id)).error <;> rfl

theorem error_linkTable (r : Resolver) (s : Resolution) (id : TableId) :
    (r.linkTable s id).error = (r.keyWalk s.db id).error := by
  unfold linkTable Database.linkTable keyWalk
  dsimp only
  cases (Walk.along (LinkState.visitKey r.check) { db := s.db } (s.db.declaredKeys id)).error <;> rfl

theorem report_linkTable (h : (r.linkTable s id).error = none) :
    (r.linkTable s id).state.report = s.report.addLinked (r.keyWalk s.db id).state.outcome := by
  rw [error_linkTable, keyWalk] at h
  unfold linkTable Database.linkTable keyWalk
  dsimp only
  rw [h]

theorem report_linkTable_of_error {e : SchemaError} (h : (r.linkTable s id).error = some e) :
    (r.linkTable s id).state.report = s.report := by
  rw [error_linkTable, keyWalk] at h
  unfold linkTable Database.linkTable
  dsimp only
  rw [h]

theorem outline_linkTable (r : Resolver) (s : Resolution) (id : TableId) :
    (r.linkTable s id).state.db.outline = s.db.outline := by
  rw [db_linkTable]
  refine Walk.along_invariant (P := fun v : LinkState => v.db.outline = s.db.outline) ?_ rfl
  exact fun v k _ hv => (LinkState.outline_visitKey r.check v k).trans hv

/-- **Linking is done table by table.** A run that is not refused takes each table, by itself,
through all keys of the database. -/
theorem db_link (h : (r.link s).error = none) : (r.link s).state.db = s.db.linked := by
  have hkeys : ∀ v i, (r.linkTable v i).error = none →
      (r.linkTable v i).state.db = (v.db.declaredKeys i).foldl Database.linkKey v.db := by
    intro v i hv
    rw [error_linkTable] at hv
    rw [db_linkTable]
    exact Walk.view_along LinkState.db Database.linkKey (fun _ _ => LinkState.db_visitKey) hv
  have hwalk : (r.link s).state.db =
      s.db.tableIds.foldl (fun d i => (d.declaredKeys i).foldl Database.linkKey d) s.db :=
    Walk.view_along Resolution.db _ hkeys h
  rw [hwalk, Database.foldl_declaredKeys, Database.foldl_linkKey]
  rfl

/-- **When linking is refused.** Tolerant runs never are, and strict ones exactly if something
dangles in the database that they start from. -/
theorem error_link_eq_none_iff : (r.link s).error = none ↔
    r.check = .tolerant ∨ ∀ k ∈ s.db.allKeys, ∀ e ∈ k.key.ends, k.dangling? s.db e = none := by
  -- visits keep the outline, and the outline decides whether the next one is refused
  have htable : ∀ v, v.db.outline = s.db.outline → ∀ i, ((r.linkTable v i).error = none ↔
      ∀ k ∈ s.db.declaredKeys i, ∀ e ∈ k.key.ends,
        r.check = .tolerant ∨ k.dangling? s.db e = none) := by
    intro v hv i
    have hkeys : v.db.declaredKeys i = s.db.declaredKeys i := by
      rw [Database.declaredKeys_eq_outline, Database.declaredKeys_eq_outline, hv]
    rw [error_linkTable, keyWalk, hkeys]
    refine Walk.error_along_eq_none_iff (P := fun u : LinkState => u.db.outline = s.db.outline)
      (fun u k hu => (LinkState.outline_visitKey r.check u k).trans hu) ?_ hv
    intro u k _ hu
    simp only [LinkState.error_visitKey_iff, Database.dangling?_congr hu]
  have hlink : (r.link s).error = none ↔ ∀ i ∈ s.db.tableIds, ∀ k ∈ s.db.declaredKeys i,
      ∀ e ∈ k.key.ends, r.check = .tolerant ∨ k.dangling? s.db e = none :=
    Walk.error_along_eq_none_iff (P := fun v : Resolution => v.db.outline = s.db.outline)
      (fun v i hv => (outline_linkTable r v i).trans hv) (fun v i _ hv => htable v hv i) rfl
  rw [hlink]
  simp only [Database.allKeys, List.mem_flatMap]
  constructor
  · intro hall
    by_cases htolerant : r.check = .tolerant
    · exact Or.inl htolerant
    · refine Or.inr ?_
      rintro k ⟨i, hi, hk⟩ e he
      exact (hall i hi k hk e he).resolve_left htolerant
  · rintro (htolerant | hall) i hi k hk e he
    · exact Or.inl htolerant
    · exact Or.inr (hall k ⟨i, hi, hk⟩ e he)

end Resolver

end RelSchema
