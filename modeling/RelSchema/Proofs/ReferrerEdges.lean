import RelSchema.Proofs.SettledTables
import RelSchema.Proofs.TableNames
import RelSchema.Proofs.TableRevisions

/-!
# Referrers are the inverse of the foreign keys

The edges that linking records are handles of foreign keys. In every database that a program can
build, also by runs that were refused half-way, they are sound: a handle among the referrers of a
table or a column is the handle of a key that points there, and stands there once. After a run that
is not refused they are complete as well, so referrers and foreign keys say the same.
-/

namespace RelSchema

namespace Database

variable {db db' : Database}

/-- Whether the handle is that of a key that points at the table with this name. -/
def PointsAt (db : Database) (id : ForeignKeyId) (table : String) : Prop :=
  ∃ key, db.foreignKey? id = some key ∧ key.foreignTable = table

/-- Whether the handle is that of a key that points at this column of the table. -/
def PointsAtColumn (db : Database) (id : ForeignKeyId) (table column : String) : Prop :=
  ∃ key, db.foreignKey? id = some key ∧ key.foreignTable = table ∧ column ∈ key.foreignColumns

/-- Whether every key of `db` stands in `db'` under the same handle, up to its name. -/
def KeysExtend (db db' : Database) : Prop :=
  ∀ id key, db.foreignKey? id = some key →
    ∃ key', db'.foreignKey? id = some key' ∧ key'.reference = key.reference

theorem keysExtend_of_outline_eq (h : db.outline = db'.outline) : db.KeysExtend db' :=
  fun id key hkey => ⟨key, (foreignKey?_congr h id).symm.trans hkey, rfl⟩

theorem PointsAt.mono {id : ForeignKeyId} {table : String} (hext : db.KeysExtend db')
    (h : db.PointsAt id table) : db'.PointsAt id table := by
  obtain ⟨key, hkey, htable⟩ := h
  obtain ⟨key', hkey', hsame⟩ := hext id key hkey
  exact ⟨key', hkey', (congrArg Prod.fst hsame).trans htable⟩

theorem PointsAtColumn.mono {id : ForeignKeyId} {table column : String} (hext : db.KeysExtend db')
    (h : db.PointsAtColumn id table column) : db'.PointsAtColumn id table column := by
  obtain ⟨key, hkey, htable, hcolumn⟩ := h
  obtain ⟨key', hkey', hsame⟩ := hext id key hkey
  have hreferences : key'.references = key.references := congrArg Prod.snd hsame
  refine ⟨key', hkey', (congrArg Prod.fst hsame).trans htable, ?_⟩
  rw [ForeignKey.foreignColumns, hreferences]
  exact hcolumn

end Database

namespace Table

variable {db db' : Database} {t t' : Table} {k : DeclaredKey} {id : TableId}

/-! ## Sound edges -/

/-- Whether the edges at a table are handles of keys that point there, each recorded once. -/
structure EdgesSound (db : Database) (t : Table) : Prop where
  nodup : t.referrers.Nodup
  pointing : ∀ key ∈ t.referrers, db.PointsAt key t.name
  column_nodup : ∀ c ∈ t.columns.list, c.referrers.Nodup
  column_pointing : ∀ c ∈ t.columns.list, ∀ key ∈ c.referrers, db.PointsAtColumn key t.name c.name

/-- Whether the edges at a table are exactly the handles of the keys that point there, each recorded
once. -/
structure EdgesExact (db : Database) (t : Table) : Prop where
  nodup : t.referrers.Nodup
  mem_iff : ∀ key, key ∈ t.referrers ↔ db.PointsAt key t.name
  column_nodup : ∀ c ∈ t.columns.list, c.referrers.Nodup
  column_mem_iff : ∀ c ∈ t.columns.list, ∀ key,
    key ∈ c.referrers ↔ db.PointsAtColumn key t.name c.name

theorem EdgesSound.mono (h : t.EdgesSound db) (hext : db.KeysExtend db') : t.EdgesSound db' where
  nodup := h.nodup
  pointing key hkey := (h.pointing key hkey).mono hext
  column_nodup := h.column_nodup
  column_pointing c hc key hkey := (h.column_pointing c hc key hkey).mono hext

theorem EdgesSound.revises (h : t.EdgesSound db) (hr : t.Revises t') : t'.EdgesSound db where
  nodup := by
    rw [hr.referrers]
    exact h.nodup
  pointing := by
    rw [hr.referrers, hr.name]
    exact h.pointing
  column_nodup c' hc' := by
    rcases hr.columns c' hc' with hnone | ⟨c, hc, -, hsame⟩
    · rw [hnone]
      exact List.nodup_nil
    · rw [← hsame]
      exact h.column_nodup c hc
  column_pointing c' hc' key hkey := by
    rcases hr.columns c' hc' with hnone | ⟨c, hc, hname, hsame⟩
    · rw [hnone] at hkey
      cases hkey
    · rw [← hsame] at hkey
      rw [hr.name, ← hname]
      exact h.column_pointing c hc key hkey

theorem EdgesSound.withIndices (h : t.EdgesSound db) (indices : List Index) :
    (t.withIndices indices).EdgesSound db :=
  ⟨h.nodup, h.pointing, h.column_nodup, h.column_pointing⟩

theorem EdgesSound.completedIn (h : t.EdgesSound db) (db' : Database) :
    (t.completedIn db').EdgesSound db := by
  rw [completedIn_eq_withIndices]
  exact h.withIndices _

theorem EdgesSound.addReferrer (h : t.EdgesSound db) {key : ForeignKeyId}
    (hkey : db.PointsAt key t.name) : (t.addReferrer key).EdgesSound db := by
  have hname : (t.addReferrer key).name = t.name := by
    unfold Table.addReferrer
    split <;> rfl
  have hcolumns : (t.addReferrer key).columns = t.columns := by
    unfold Table.addReferrer
    split <;> rfl
  constructor
  case nodup =>
    rw [referrers_addReferrer]
    exact nodup_recorded h.nodup key
  case pointing =>
    intro key' hkey'
    rw [hname]
    rcases mem_referrers_addReferrer.1 hkey' with hold | rfl
    · exact h.pointing key' hold
    · exact hkey
  case column_nodup =>
    rw [hcolumns]
    exact h.column_nodup
  case column_pointing =>
    rw [hcolumns, hname]
    exact h.column_pointing

theorem EdgesSound.amendColumn (h : t.EdgesSound db) {column : String} {key : ForeignKeyId}
    (hkey : db.PointsAtColumn key t.name column) :
    (t.amendColumn column (·.addReferrer key)).EdgesSound db := by
  constructor
  case nodup => exact h.nodup
  case pointing => exact h.pointing
  case column_nodup =>
    intro c' hc'
    rw [list_amendColumn_addReferrer] at hc'
    obtain ⟨c, hc, rfl⟩ := List.mem_map.1 hc'
    split
    · rw [column_referrers_addReferrer]
      exact nodup_recorded (h.column_nodup c hc) key
    · exact h.column_nodup c hc
  case column_pointing =>
    intro c' hc' key' hkey'
    rw [list_amendColumn_addReferrer] at hc'
    obtain ⟨c, hc, rfl⟩ := List.mem_map.1 hc'
    split at hkey'
    · rename_i hcolumn
      rw [if_pos hcolumn, name_addReferrer]
      rcases mem_column_referrers_addReferrer.1 hkey' with hold | rfl
      · exact h.column_pointing c hc key' hold
      · exact hcolumn ▸ hkey
    · rename_i hcolumn
      rw [if_neg hcolumn]
      exact h.column_pointing c hc key' hkey'

/-- Linking an end records the handle of the key where the key points. -/
theorem EdgesSound.linkEnd (h : t.EdgesSound db) (hk : db.foreignKey? k.id = some k.key)
    (hname : db.tableId? k.key.foreignTable = some id → t.name = k.key.foreignTable) {e : KeyEnd}
    (he : e ∈ k.key.ends) : (t.linkEnd db id k e).EdgesSound db := by
  cases e with
  | target =>
    rw [Table.linkEnd]
    split
    · rename_i htarget
      exact h.addReferrer ⟨k.key, hk, (hname htarget).symm⟩
    · exact h
  | localColumn column =>
    rw [Table.linkEnd]
    split
    · exact ⟨h.nodup, h.pointing, h.column_nodup, h.column_pointing⟩
    · exact h
  | foreignColumn column =>
    have hcolumn : column ∈ k.key.foreignColumns := by simpa [ForeignKey.ends] using he
    rw [Table.linkEnd]
    split
    · rename_i htarget
      exact h.amendColumn ⟨k.key, hk, (hname htarget).symm, hcolumn⟩
    · exact h

/-! ## New tables -/

/-- A table on which no edges were recorded yet. -/
structure Unreferenced (t : Table) : Prop where
  table : t.referrers = []
  columns : ∀ c ∈ t.columns.list, c.referrers = []

theorem Unreferenced.revises (h : t.Unreferenced) (hr : t.Revises t') : t'.Unreferenced where
  table := hr.referrers.trans h.table
  columns c' hc' := by
    rcases hr.columns c' hc' with hnone | ⟨c, hc, -, hsame⟩
    · exact hnone
    · exact hsame.symm.trans (h.columns c hc)

theorem Unreferenced.edgesSound (h : t.Unreferenced) (db : Database) : t.EdgesSound db where
  nodup := by
    rw [h.table]
    exact List.nodup_nil
  pointing := by
    rw [h.table]
    exact fun _ hkey => nomatch hkey
  column_nodup c hc := by
    rw [h.columns c hc]
    exact List.nodup_nil
  column_pointing c hc := by
    rw [h.columns c hc]
    exact fun _ hkey => nomatch hkey

end Table

namespace Database

variable {db : Database} {k : DeclaredKey} {f : TableId → Table → Table}

/-! ## Consistent databases -/

/-- Whether table names are unique and all edges are sound. -/
structure Consistent (db : Database) : Prop where
  names : (db.tables.map (·.name)).Nodup
  edges : ∀ t ∈ db.tables, t.EdgesSound db

/-- A change of every table by itself that keeps the keys and the soundness of edges. -/
theorem Consistent.mapTables (h : db.Consistent) (hext : db.KeysExtend (db.mapTables f))
    (hname : ∀ id t, db.table? id = some t → (f id t).name = t.name)
    (hsound : ∀ id t, db.table? id = some t → t.EdgesSound db → (f id t).EdgesSound db) :
    (db.mapTables f).Consistent where
  names := by
    rw [names_mapTables hname]
    exact h.names
  edges t' ht' := by
    obtain ⟨id, t, ht, rfl⟩ := mem_tables_mapTables ht'
    exact (hsound id t ht (h.edges t (List.mem_of_getElem? ht))).mono hext

/-- Linking keeps the outline, and with it the keys and the names. -/
theorem Consistent.relink (h : db.Consistent)
    (hdecl : ∀ id t, db.table? id = some t → (f id t).declaration = t.declaration)
    (hsound : ∀ id t, db.table? id = some t → t.EdgesSound db → (f id t).EdgesSound db) :
    (db.mapTables f).Consistent := by
  have houtline : (db.mapTables f).outline = db.outline :=
    outline_mapTables fun id t ht => Table.outline_eq_of_declaration_eq (hdecl id t ht)
  refine h.mapTables (keysExtend_of_outline_eq houtline.symm) ?_ hsound
  exact fun id t ht => congrArg (·.2.name) (hdecl id t ht)

theorem keysExtend_mapTables (h : ∀ id t, db.table? id = some t → t.Revises (f id t)) :
    db.KeysExtend (db.mapTables f) := by
  intro id key hkey
  obtain ⟨t, ht, hposition⟩ := Option.bind_eq_some_iff.1 hkey
  obtain ⟨key', hkey', hsame⟩ := (h id.table t ht).getElem?_foreignKeys hposition
  refine ⟨key', ?_, hsame⟩
  rw [foreignKey?, table?_mapTables, ht]
  exact hkey'

theorem Consistent.revise (h : db.Consistent)
    (hr : ∀ id t, db.table? id = some t → t.Revises (f id t)) : (db.mapTables f).Consistent :=
  h.mapTables (keysExtend_mapTables hr) (fun id t ht => (hr id t ht).name)
    fun id t ht hsound => hsound.revises (hr id t ht)

/-- Replacing a table by a revision of it. -/
theorem Consistent.modifyTable (h : db.Consistent) {id : TableId} {t t' : Table}
    (ht : db.table? id = some t) (hr : t.Revises t') :
    (db.modifyTable id fun _ => t').Consistent := by
  rw [modifyTable_eq_mapTables]
  refine h.revise fun i u hu => ?_
  split
  · rename_i hi
    rw [hi] at hu
    cases ht.symm.trans hu
    exact hr
  · exact .refl u

theorem keysExtend_append {db' : Database} {t : Table} (h : db'.tables = db.tables ++ [t]) :
    db.KeysExtend db' := by
  intro id key hkey
  obtain ⟨u, hu, hposition⟩ := Option.bind_eq_some_iff.1 hkey
  have hu' : db'.table? id.table = some u := by
    rw [table?, h, List.getElem?_append_left (List.getElem?_eq_some_iff.1 hu).1]
    exact hu
  refine ⟨key, ?_, rfl⟩
  rw [foreignKey?, hu']
  exact hposition

theorem Consistent.addTable (h : db.Consistent) {t : Table} (ht : t.Unreferenced) {id : TableId}
    {db' : Database} (hadd : db.addTable t = .ok (id, db')) : db'.Consistent := by
  obtain ⟨hfresh, rfl⟩ := addTable_eq_ok hadd
  have hschema : t.Revises { t with schema := t.schema.or db.defaultSchema } :=
    Table.revises_of_eq rfl rfl rfl rfl
  have hadopted : t.Revises (db.adopted t) := hschema.trans (Table.revises_inherit _ db.defaults)
  constructor
  case names =>
    rw [List.map_append, List.map_singleton, ← List.concat_eq_append]
    exact List.Nodup.concat hfresh h.names
  case edges =>
    intro u hu
    rcases List.mem_append.1 hu with hold | hlast
    · exact (h.edges u hold).mono (keysExtend_append rfl)
    · rw [List.mem_singleton.1 hlast]
      exact (ht.revises hadopted).edgesSound _

/-! ## Runs keep databases consistent, also when they are refused -/

theorem Consistent.connect (h : db.Consistent) (hk : db.foreignKey? k.id = some k.key) {e : KeyEnd}
    (he : e ∈ k.key.ends) : (k.connect db e).Consistent := by
  rw [k.connect_eq_mapTables]
  refine h.relink (fun id t _ => Table.declaration_linkEnd db id k t e) fun id t ht hsound => ?_
  exact hsound.linkEnd hk (fun htarget => name_of_tableId? htarget ht) he

end Database

namespace LinkState

variable {check : ReferenceCheck} {k : DeclaredKey} {s : LinkState}

theorem consistent_synthesizeFor (h : s.db.Consistent) : (s.synthesizeFor k).db.Consistent := by
  rw [db_synthesizeFor]
  refine h.relink (fun id t _ => ?_) fun id t _ hsound => ?_
  · split
    · exact Table.declaration_completedIn s.db t
    · rfl
  · split
    · exact hsound.completedIn s.db
    · exact hsound

/-- The ends before the one that is refused stay linked, and they are sound. -/
theorem consistent_visitKey (h : s.db.Consistent) (hk : s.db.foreignKey? k.id = some k.key) :
    (visitKey check s k).state.db.Consistent := by
  -- with the outline the key stays where it was, so every end can be judged by it
  have hends : (Walk.along (visitEnd check k) s.counted k.key.ends).state.db.Consistent ∧
      (Walk.along (visitEnd check k) s.counted k.key.ends).state.db.outline = s.db.outline := by
    refine Walk.along_invariant (P := fun v : LinkState =>
      v.db.Consistent ∧ v.db.outline = s.db.outline) ?_ ⟨h, rfl⟩
    rintro v e he ⟨hv, houtline⟩
    refine ⟨?_, (outline_visitEnd check k v e).trans houtline⟩
    rcases db_visitEnd_cases check k v e with hdb | hdb
    · rw [hdb]
      exact hv
    · rw [hdb]
      exact hv.connect ((Database.foreignKey?_congr houtline k.id).trans hk) he
  unfold visitKey Walk.andThen
  dsimp only
  split
  · exact consistent_synthesizeFor hends.1
  · exact hends.1

end LinkState

namespace Resolver

variable {r : Resolver} {s : Resolution}

theorem consistent_linkTable (h : s.db.Consistent) (id : TableId) :
    (r.linkTable s id).state.db.Consistent := by
  rw [db_linkTable]
  have hwalk : (r.keyWalk s.db id).state.db.Consistent ∧
      (r.keyWalk s.db id).state.db.outline = s.db.outline := by
    refine Walk.along_invariant (P := fun v : LinkState =>
      v.db.Consistent ∧ v.db.outline = s.db.outline) ?_ ⟨h, rfl⟩
    rintro v k hk ⟨hv, houtline⟩
    have hkey : v.db.foreignKey? k.id = some k.key := by
      obtain ⟨t, ht, hname, hid, hposition⟩ := Database.mem_declaredKeys_iff.1 hk
      rw [Database.foreignKey?_congr houtline, Database.foreignKey?, hid, ht]
      exact hposition
    exact ⟨LinkState.consistent_visitKey hv hkey,
      (LinkState.outline_visitKey r.check v k).trans houtline⟩
  exact hwalk.1

theorem consistent_link (h : s.db.Consistent) : (r.link s).state.db.Consistent :=
  Walk.along_invariant (P := fun v : Resolution => v.db.Consistent)
    (fun _ id _ hv => consistent_linkTable hv id) h

theorem consistent_finalizeTable (hr : r.behaviors.Revising) (h : s.db.Consistent) (id : TableId) :
    (r.finalizeTable s id).state.db.Consistent := by
  unfold finalizeTable
  split
  · exact h
  · rename_i t ht
    have hrevises := Table.revises_finalize hr t r.strategy s.db.platform.maxIdentifierLength
    split
    · rename_i t' outcome hfinalize
      rw [hfinalize] at hrevises
      exact h.modifyTable ht hrevises
    · rename_i t' e hfinalize
      rw [hfinalize] at hrevises
      exact h.modifyTable ht hrevises

theorem consistent_finalize (hr : r.behaviors.Revising) (h : s.db.Consistent) :
    (r.finalize s).state.db.Consistent :=
  Walk.along_invariant (P := fun v : Resolution => v.db.Consistent)
    (fun _ id _ hv => consistent_finalizeTable hr hv id) h

theorem consistent_resolve (hr : r.behaviors.Revising) {db : Database} (h : db.Consistent)
    (timestamp : String) : (r.resolve timestamp db).1.Consistent := by
  have hfinalized : (r.finalize ⟨db, { timestamp }⟩).state.db.Consistent :=
    consistent_finalize hr h
  unfold resolve Walk.andThen
  dsimp only
  split
  · exact consistent_link hfinalized
  · exact hfinalized

end Resolver

/-! ## Databases that a program can build -/

/-- A database that was built from new tables by edits and by runs of a resolver, in any order.
Runs count also when they were refused, with what they had changed until then. -/
inductive Database.Built : Database → Prop where
  | new {db : Database} : db.tables = [] → Built db
  | setting {db db' : Database} : Built db → db'.tables = db.tables → Built db'
  | addTable {db db' : Database} {t : Table} {id : TableId} :
      Built db → t.Unreferenced → db.addTable t = .ok (id, db') → Built db'
  | edit {db : Database} {id : TableId} {t t' : Table} :
      Built db → db.table? id = some t → t.Edit t' → Built (db.modifyTable id fun _ => t')
  | finalize {r : Resolver} {s : Resolution} :
      Built s.db → r.behaviors.Revising → Built (r.finalize s).state.db
  | link {r : Resolver} {s : Resolution} : Built s.db → Built (r.link s).state.db
  | resolve {r : Resolver} {db : Database} (timestamp : String) :
      Built db → r.behaviors.Revising → Built (r.resolve timestamp db).1

namespace Database

variable {db : Database}

theorem consistent_setting {db' : Database} (h : db.Consistent) (htables : db'.tables = db.tables) :
    db'.Consistent where
  names := by
    rw [htables]
    exact h.names
  edges t ht := by
    rw [htables] at ht
    refine (h.edges t ht).mono (keysExtend_of_outline_eq ?_)
    rw [outline, outline, htables]

/-- **Soundness.** Whatever a program does, no edge is recorded where its key does not point. -/
theorem Built.consistent (h : db.Built) : db.Consistent := by
  induction h with
  | @new db hnone =>
    constructor
    · rw [hnone]
      exact List.nodup_nil
    · rw [hnone]
      exact fun _ ht => nomatch ht
  | setting _ htables ih => exact consistent_setting ih htables
  | addTable _ hnew hadd ih => exact ih.addTable hnew hadd
  | edit _ ht hedit ih => exact ih.modifyTable ht hedit.revises
  | finalize _ hr ih => exact Resolver.consistent_finalize hr ih
  | link _ ih => exact Resolver.consistent_link ih
  | resolve timestamp _ hr ih => exact Resolver.consistent_resolve hr ih timestamp

/-- New tables can be added one after the other. -/
theorem Built.addTables {db' : Database} {ts : List Table} (h : db.Built)
    (hnew : ∀ t ∈ ts, t.Unreferenced) (hadd : db.addTables ts = .ok db') : db'.Built := by
  induction ts generalizing db with
  | nil =>
    cases hadd
    exact h
  | cons t rest ih =>
    rw [Database.addTables] at hadd
    split at hadd
    · rename_i hfirst
      exact ih (h.addTable (hnew t List.mem_cons_self) hfirst)
        (fun u hu => hnew u (List.mem_cons_of_mem _ hu)) hadd
    · cases hadd

/-! ## Completeness -/

theorem exists_mem_allKeys_of_foreignKey? {key : ForeignKeyId} {fk : ForeignKey}
    (h : db.foreignKey? key = some fk) : ∃ k ∈ db.allKeys, k.id = key ∧ k.key = fk := by
  obtain ⟨t, ht, hposition⟩ := Option.bind_eq_some_iff.1 h
  exact ⟨⟨key, t.name, fk⟩, mem_allKeys_iff.2 ⟨t, ht, rfl, hposition⟩, rfl, rfl⟩

/-- What is settled has all edges; what is consistent has no others. -/
theorem Settled.edgesExact (h : db.Settled) (hc : db.Consistent) {t : Table} (ht : t ∈ db.tables) :
    t.EdgesExact db := by
  obtain ⟨id, hid⟩ := exists_table?_of_mem ht
  have hsound := hc.edges t ht
  have htarget : db.tableId? t.name = some id := tableId?_name hc.names hid
  constructor
  case nodup => exact hsound.nodup
  case mem_iff =>
    intro key
    refine ⟨hsound.pointing key, ?_⟩
    rintro ⟨fk, hfk, hname⟩
    obtain ⟨k, hk, rfl, rfl⟩ := exists_mem_allKeys_of_foreignKey? hfk
    exact h.mem_referrers hk (hname ▸ htarget) hid
  case column_nodup => exact hsound.column_nodup
  case column_mem_iff =>
    intro c hcolumn key
    refine ⟨hsound.column_pointing c hcolumn key, ?_⟩
    rintro ⟨fk, hfk, hname, hmem⟩
    obtain ⟨k, hk, rfl, rfl⟩ := exists_mem_allKeys_of_foreignKey? hfk
    have hend : KeyEnd.foreignColumn c.name ∈ k.key.ends := by simpa [ForeignKey.ends] using hmem
    exact (h id t hid k hk).ends _ hend (hname ▸ htarget) c hcolumn rfl

end Database

/-- **Referrers are the inverse of the foreign keys.** When a run of linking is not refused, the
referrers of each table are the handles of the keys that point at it, and the referrers of each
column are the handles of the keys that point at it by that column; each handle stands there
once. -/
theorem Resolver.edgesExact_link {r : Resolver} {s : Resolution} (hb : s.db.Built)
    (h : (r.link s).error = none) :
    ∀ t ∈ (r.link s).state.db.tables, t.EdgesExact (r.link s).state.db := by
  intro t ht
  have hsettled : (r.link s).state.db.Settled := by
    rw [db_link h]
    exact s.db.settled_linked
  exact hsettled.edgesExact hb.link.consistent ht

/-- A shop that starts with books only, although they refer to authors. -/
def booksOnly : Database :=
  ({ name := "bookshop" } : Database).withTables
    [{ name := "book"
       columns := Columns.empty.push
         { name := "writer", columnType := .integer } (Columns.not_contains_empty "writer")
       foreignKeys := [{ foreignTable := "author", references := [⟨"writer", "code"⟩] }] }]

def refusedRun : Walk Resolution :=
  ({ check := .strict } : Resolver).link ⟨booksOnly, { timestamp := "" }⟩

/-- The shop after a strict run was refused and the authors were added. -/
def authorsAdded : Database :=
  refusedRun.state.db.withTables
    [{ name := "author"
       columns := Columns.empty.push
         { name := "code", columnType := .integer, primaryKey := true }
           (Columns.not_contains_empty "code") }]

theorem built_authorsAdded : authorsAdded.Built := by
  have hbooks : booksOnly.Built := by
    refine .addTable (.new rfl) ?_ (Database.addTable_of_new (by decide +kernel))
    exact ⟨rfl, by decide +kernel⟩
  refine .addTable (hbooks.link : refusedRun.state.db.Built) ?_
    (Database.addTable_of_new (by decide +kernel))
  exact ⟨rfl, by decide +kernel⟩

def laterRun : Walk Resolution :=
  ({ check := .strict } : Resolver).link ⟨authorsAdded, { timestamp := "" }⟩

/-- Once the authors are there, the strict run goes through and the edges are complete. -/
theorem edgesExact_link_authorsAdded :
    refusedRun.error.isSome = true ∧ authorsAdded.Built ∧ laterRun.error = none ∧
      ∀ t ∈ laterRun.state.db.tables, t.EdgesExact laterRun.state.db :=
  ⟨by decide +kernel, built_authorsAdded, by decide +kernel,
    Resolver.edgesExact_link built_authorsAdded (by decide +kernel)⟩

end RelSchema
