import RelSchema.Proofs.Completion
import RelSchema.Resolution

/-!
# Linking, table by table

Linking walks over the foreign keys and changes whatever tables a key touches. What happens to one
table, however, depends on the other tables only through their names, their keys and the names of
their columns (`Database.outline`), and linking changes none of these. So what linking a key does
can be said of one table at a time (`Table.linkKey`), and connecting an end of a key is a change of
every table by itself (`DeclaredKey.connect_eq_mapTables`).
-/

namespace RelSchema

/-! ## What linking leaves alone -/

/-- The column without the edges that linking records. -/
def Column.bare (c : Column) : Column := { c with referrers := [] }

namespace Table

/-- What linking leaves alone: the columns up to their referrers, and everything but the indices,
the referrers and the foreign primary key mark. -/
def declaration (t : Table) : List Column × Table :=
  (t.columns.list.map Column.bare,
    { t with columns := .empty, indices := [], referrers := [], containsForeignPrimaryKey := false })

/-- What other tables see of a table when keys are linked. -/
def outline (t : Table) : String × List ForeignKey × List String :=
  (t.name, t.foreignKeys, t.columnNames)

variable {t t' : Table}

theorem map_bare_eq_of_declaration_eq (h : t.declaration = t'.declaration) :
    t.columns.list.map Column.bare = t'.columns.list.map Column.bare :=
  congrArg Prod.fst h

/-- A fact about columns that does not look at referrers is the same for both tables. -/
theorem map_eq_of_declaration_eq {β : Type} {f : Column → β} (hf : ∀ c, f c.bare = f c)
    (h : t.declaration = t'.declaration) : t.columns.list.map f = t'.columns.list.map f := by
  have hmap : ∀ l : List Column, l.map f = (l.map Column.bare).map f := by
    intro l
    rw [List.map_map]
    exact List.map_congr_left fun c _ => (hf c).symm
  rw [hmap, hmap t'.columns.list, map_bare_eq_of_declaration_eq h]

theorem outline_eq_of_declaration_eq (h : t.declaration = t'.declaration) :
    t.outline = t'.outline := by
  have hnames : t.columnNames = t'.columnNames := map_eq_of_declaration_eq (fun _ => rfl) h
  have hname : t.name = t'.name := congrArg (·.2.name) h
  have hkeys : t.foreignKeys = t'.foreignKeys := congrArg (·.2.foreignKeys) h
  rw [outline, outline, hname, hkeys, hnames]

theorem primaryKeyNames_eq_of_declaration_eq (h : t.declaration = t'.declaration) :
    t.primaryKeyNames = t'.primaryKeyNames := by
  have hfilter : ∀ l : List Column,
      (l.filter (·.primaryKey)).map (·.name) =
        ((l.map Column.bare).filter (·.primaryKey)).map (·.name) := by
    intro l
    induction l with
    | nil => rfl
    | cons c rest ih => cases hp : c.primaryKey <;> simp [Column.bare, hp, ih]
  show (t.columns.list.filter (·.primaryKey)).map (·.name) =
    (t'.columns.list.filter (·.primaryKey)).map (·.name)
  rw [hfilter, hfilter t'.columns.list, map_bare_eq_of_declaration_eq h]

theorem declaration_withIndices (t : Table) (indices : List Index) :
    (t.withIndices indices).declaration = t.declaration := rfl

theorem declaration_completedIn (db : Database) (t : Table) :
    (t.completedIn db).declaration = t.declaration := by
  rw [completedIn_eq_withIndices, declaration_withIndices]

theorem declaration_addReferrer (t : Table) (key : ForeignKeyId) :
    (t.addReferrer key).declaration = t.declaration := by
  unfold addReferrer
  split <;> rfl

theorem bare_addReferrer (c : Column) (key : ForeignKeyId) : (c.addReferrer key).bare = c.bare := by
  unfold Column.addReferrer
  split <;> rfl

theorem amended_addReferrer (c : Column) (key : ForeignKeyId) :
    Columns.amended (·.addReferrer key) c = c.addReferrer key := by
  cases h : c.hasReferrer key <;> simp [Columns.amended, Column.addReferrer, h]

theorem declaration_amendColumn_addReferrer (t : Table) (column : String) (key : ForeignKeyId) :
    (t.amendColumn column (·.addReferrer key)).declaration = t.declaration := by
  have hbare : (t.columns.amend column (·.addReferrer key)).list.map Column.bare =
      t.columns.list.map Column.bare := by
    rw [Columns.list_amend, List.map_map]
    refine List.map_congr_left fun c _ => ?_
    simp only [Function.comp]
    split
    · rw [amended_addReferrer, bare_addReferrer]
    · rfl
  exact Prod.ext hbare rfl

end Table

namespace Database

/-! ## Changing every table by itself -/

/-- The database with every table changed by itself. -/
def mapTables (f : TableId → Table → Table) (db : Database) : Database :=
  { db with tables := db.tables.mapIdx fun place t => f ⟨place⟩ t }

variable {db db' : Database} {f g : TableId → Table → Table}

@[simp] theorem table?_mapTables (f : TableId → Table → Table) (db : Database) (id : TableId) :
    (db.mapTables f).table? id = (db.table? id).map (f id) :=
  List.getElem?_mapIdx

theorem mapTables_mapTables (f g : TableId → Table → Table) (db : Database) :
    (db.mapTables f).mapTables g = db.mapTables fun id t => g id (f id t) := by
  simp only [mapTables, List.mapIdx_mapIdx]
  rfl

theorem mapTables_congr (h : ∀ id t, db.table? id = some t → f id t = g id t) :
    db.mapTables f = db.mapTables g := by
  have htables : db.tables.mapIdx (fun place t => f ⟨place⟩ t) =
      db.tables.mapIdx fun place t => g ⟨place⟩ t := by
    apply List.ext_getElem?
    intro place
    rw [List.getElem?_mapIdx, List.getElem?_mapIdx]
    cases ht : db.tables[place]? with
    | none => rfl
    | some t => exact congrArg some (h ⟨place⟩ t ht)
  rw [mapTables, mapTables, htables]

theorem tables_mapTables_const (f : Table → Table) (db : Database) :
    (db.mapTables fun _ t => f t).tables = db.tables.map f := by
  apply List.ext_getElem?
  intro place
  rw [mapTables, List.getElem?_mapIdx, List.getElem?_map]

theorem mapTables_eq_self (h : ∀ id t, db.table? id = some t → f id t = t) :
    db.mapTables f = db := by
  rw [mapTables_congr h]
  have htables : db.tables.mapIdx (fun _ t => t) = db.tables := by
    apply List.ext_getElem?
    intro place
    rw [List.getElem?_mapIdx]
    cases db.tables[place]? <;> rfl
  rw [mapTables, htables]

theorem modifyTable_eq_mapTables (db : Database) (id : TableId) (f : Table → Table) :
    db.modifyTable id f = db.mapTables fun i t => if i = id then f t else t := by
  have htables : db.tables.modify id.index f =
      db.tables.mapIdx fun place t => if (⟨place⟩ : TableId) = id then f t else t := by
    apply List.ext_getElem?
    intro place
    rw [List.getElem?_modify, List.getElem?_mapIdx]
    by_cases hplace : id.index = place
    · subst hplace
      simp
    · have hne : (⟨place⟩ : TableId) ≠ id := fun h => hplace (h ▸ rfl)
      simp [hplace, hne]
  rw [modifyTable, mapTables, htables]

/-! ## The outline of a database -/

/-- What linking reads of the tables other than the one it changes. -/
def outline (db : Database) : List (String × List ForeignKey × List String) :=
  db.tables.map Table.outline

theorem outline_mapTables (h : ∀ id t, db.table? id = some t → (f id t).outline = t.outline) :
    (db.mapTables f).outline = db.outline := by
  apply List.ext_getElem?
  intro place
  simp only [outline, mapTables, List.getElem?_map, List.getElem?_mapIdx]
  cases ht : db.tables[place]? with
  | none => rfl
  | some t => exact congrArg some (h ⟨place⟩ t ht)

theorem tableId?_eq_outline (db : Database) (name : String) :
    db.tableId? name = (db.outline.findIdx? (·.1 == name)).map TableId.mk := by
  rw [tableId?, outline, List.findIdx?_map]
  rfl

theorem foreignKey?_eq_outline (db : Database) (id : ForeignKeyId) :
    db.foreignKey? id = (db.outline[id.table.index]?).bind fun o => o.2.1[id.position]? := by
  rw [foreignKey?, outline, List.getElem?_map, table?]
  cases db.tables[id.table.index]? <;> rfl

theorem tableIds_eq_outline (db : Database) :
    db.tableIds = (List.range db.outline.length).map TableId.mk := by
  rw [tableIds, outline, List.length_map]

theorem declaredKeys_eq_outline (db : Database) (id : TableId) :
    db.declaredKeys id = match db.outline[id.index]? with
      | none => []
      | some o => o.2.1.zipIdx.map fun (key, position) => ⟨⟨id, position⟩, o.1, key⟩ := by
  rw [declaredKeys, outline, List.getElem?_map, table?]
  cases db.tables[id.index]? <;> rfl

theorem tableId?_congr (h : db.outline = db'.outline) (name : String) :
    db.tableId? name = db'.tableId? name := by
  rw [tableId?_eq_outline, tableId?_eq_outline, h]

theorem foreignKey?_congr (h : db.outline = db'.outline) (id : ForeignKeyId) :
    db.foreignKey? id = db'.foreignKey? id := by
  rw [foreignKey?_eq_outline, foreignKey?_eq_outline, h]

/-- All foreign keys of a database, in the order in which they are linked. -/
def allKeys (db : Database) : List DeclaredKey := db.tableIds.flatMap db.declaredKeys

theorem allKeys_congr (h : db.outline = db'.outline) : db.allKeys = db'.allKeys := by
  have hkeys : db.declaredKeys = db'.declaredKeys := by
    funext id
    rw [declaredKeys_eq_outline, declaredKeys_eq_outline, h]
  rw [allKeys, allKeys, tableIds_eq_outline, tableIds_eq_outline, h, hkeys]

theorem mem_tableIds_iff {id : TableId} : id ∈ db.tableIds ↔ ∃ t, db.table? id = some t := by
  simp only [tableIds, List.mem_map, List.mem_range, table?]
  constructor
  · rintro ⟨place, hlt, rfl⟩
    exact ⟨_, List.getElem?_eq_getElem hlt⟩
  · rintro ⟨t, ht⟩
    exact ⟨id.index, (List.getElem?_eq_some_iff.1 ht).1, rfl⟩

/-- The keys of a database are the ones that its tables declare, each under its own handle. -/
theorem mem_declaredKeys_iff {id : TableId} {k : DeclaredKey} :
    k ∈ db.declaredKeys id ↔ ∃ t, db.table? id = some t ∧ k.table = t.name ∧ k.id.table = id ∧
      t.foreignKeys[k.id.position]? = some k.key := by
  rw [declaredKeys]
  cases ht : db.table? id with
  | none => simp
  | some t =>
    simp only [List.mem_map, Prod.exists, List.mem_zipIdx_iff_getElem?, Option.some.injEq,
      exists_eq_left']
    constructor
    · rintro ⟨key, position, hkey, rfl⟩
      exact ⟨rfl, rfl, hkey⟩
    · rintro ⟨htable, hid, hkey⟩
      refine ⟨k.key, k.id.position, hkey, ?_⟩
      obtain ⟨⟨table, position⟩, name, key⟩ := k
      cases htable
      cases hid
      rfl

theorem mem_allKeys_iff {k : DeclaredKey} :
    k ∈ db.allKeys ↔ ∃ t, db.table? k.id.table = some t ∧ k.table = t.name ∧
      t.foreignKeys[k.id.position]? = some k.key := by
  simp only [allKeys, List.mem_flatMap, mem_declaredKeys_iff]
  constructor
  · rintro ⟨id, -, t, ht, hname, rfl, hkey⟩
    exact ⟨t, ht, hname, hkey⟩
  · rintro ⟨t, ht, hname, hkey⟩
    exact ⟨_, mem_tableIds_iff.2 ⟨t, ht⟩, t, ht, hname, rfl, hkey⟩

/-- The handle of a table in the list of tables. -/
theorem exists_table?_of_mem {t : Table} (h : t ∈ db.tables) : ∃ id, db.table? id = some t := by
  obtain ⟨place, hplace⟩ := List.mem_iff_getElem?.1 h
  exact ⟨⟨place⟩, hplace⟩

theorem mem_tables_mapTables {t' : Table} (h : t' ∈ (db.mapTables f).tables) :
    ∃ id t, db.table? id = some t ∧ f id t = t' := by
  obtain ⟨id, hid⟩ := exists_table?_of_mem h
  rw [table?_mapTables] at hid
  obtain ⟨t, ht, hft⟩ := Option.map_eq_some_iff.1 hid
  exact ⟨id, t, ht, hft⟩

theorem names_mapTables (h : ∀ id t, db.table? id = some t → (f id t).name = t.name) :
    (db.mapTables f).tables.map (·.name) = db.tables.map (·.name) := by
  apply List.ext_getElem?
  intro place
  simp only [mapTables, List.getElem?_map, List.getElem?_mapIdx]
  cases ht : db.tables[place]? with
  | none => rfl
  | some t => exact congrArg some (h ⟨place⟩ t ht)

/-- Each key of a table is one of the keys of the database, under a handle of the table. -/
theorem exists_mem_allKeys {t : Table} {id : TableId} (ht : db.table? id = some t)
    {key : ForeignKey} (hkey : key ∈ t.foreignKeys) : ∃ k ∈ db.allKeys, k.id.table = id ∧ k.key = key := by
  obtain ⟨position, hposition⟩ := List.mem_iff_getElem?.1 hkey
  exact ⟨⟨⟨id, position⟩, t.name, key⟩, mem_allKeys_iff.2 ⟨t, ht, rfl, hposition⟩, rfl, rfl⟩

theorem foreignKey?_of_mem_allKeys {k : DeclaredKey} (h : k ∈ db.allKeys) :
    db.foreignKey? k.id = some k.key := by
  obtain ⟨t, ht, -, hkey⟩ := mem_allKeys_iff.1 h
  rw [foreignKey?, ht]
  exact hkey

end Database

/-! ## One key, at one table -/

/-- Whether linking the key has to do with the table: it declares the key or is its target. -/
def DeclaredKey.Touches (k : DeclaredKey) (db : Database) (id : TableId) : Prop :=
  k.id.table = id ∨ db.tableId? k.key.foreignTable = some id

instance (k : DeclaredKey) (db : Database) (id : TableId) : Decidable (k.Touches db id) :=
  inferInstanceAs (Decidable (_ ∨ _))

theorem DeclaredKey.touches_congr {db db' : Database} (h : db.outline = db'.outline)
    (k : DeclaredKey) (id : TableId) : k.Touches db id ↔ k.Touches db' id := by
  rw [Touches, Touches, Database.tableId?_congr h]

namespace Table

/-- What linking one end of a key does to the table with this handle. -/
def linkEnd (db : Database) (id : TableId) (k : DeclaredKey) (t : Table) : KeyEnd → Table
  | .target =>
    if db.tableId? k.key.foreignTable = some id then t.addReferrer k.id else t
  | .localColumn column =>
    if k.id.table = id ∧ (t.column? column).any (·.primaryKey) = true then t.markForeignPrimaryKey
    else t
  | .foreignColumn column =>
    if db.tableId? k.key.foreignTable = some id then t.amendColumn column (·.addReferrer k.id) else t

/-- What linking a key does to the table with this handle: edges first, then indices. -/
def linkKey (db : Database) (id : TableId) (t : Table) (k : DeclaredKey) : Table :=
  if db.platform.needsKeyIndices = true ∧ k.Touches db id then
    (k.key.ends.foldl (linkEnd db id k) t).completedIn db
  else k.key.ends.foldl (linkEnd db id k) t

/-- What linking all keys, in this order, does to the table with this handle. -/
def linkAll (db : Database) (id : TableId) (keys : List DeclaredKey) (t : Table) : Table :=
  keys.foldl (linkKey db id) t

variable {db db' : Database} {id : TableId} {k : DeclaredKey} {t : Table}

theorem completedIn_of_outline_eq (h : db.outline = db'.outline) (t : Table) :
    t.completedIn db = t.completedIn db' :=
  completedIn_congr fun key _ => Database.foreignKey?_congr h key

theorem declaration_linkEnd (db : Database) (id : TableId) (k : DeclaredKey) (t : Table)
    (e : KeyEnd) : (t.linkEnd db id k e).declaration = t.declaration := by
  cases e with
  | target =>
    rw [linkEnd]
    split
    · exact declaration_addReferrer t k.id
    · rfl
  | localColumn column =>
    rw [linkEnd]
    split <;> rfl
  | foreignColumn column =>
    rw [linkEnd]
    split
    · exact declaration_amendColumn_addReferrer t column k.id
    · rfl

theorem declaration_linkEnds (db : Database) (id : TableId) (k : DeclaredKey) (t : Table)
    (ends : List KeyEnd) : (ends.foldl (linkEnd db id k) t).declaration = t.declaration := by
  induction ends generalizing t with
  | nil => rfl
  | cons e rest ih => exact (ih _).trans (declaration_linkEnd db id k t e)

theorem declaration_linkKey (db : Database) (id : TableId) (t : Table) (k : DeclaredKey) :
    (t.linkKey db id k).declaration = t.declaration := by
  unfold linkKey
  split
  · exact (declaration_completedIn db _).trans (declaration_linkEnds db id k t _)
  · exact declaration_linkEnds db id k t _

theorem declaration_linkAll (db : Database) (id : TableId) (keys : List DeclaredKey) (t : Table) :
    (t.linkAll db id keys).declaration = t.declaration := by
  induction keys generalizing t with
  | nil => rfl
  | cons k rest ih => exact (ih _).trans (declaration_linkKey db id t k)

theorem linkEnd_congr (h : db.outline = db'.outline) (e : KeyEnd) :
    t.linkEnd db id k e = t.linkEnd db' id k e := by
  cases e <;> simp only [linkEnd, Database.tableId?_congr h]

/-- Of the database, linking at one table depends on the platform and the outline. -/
theorem linkKey_congr (h : db.outline = db'.outline) (hp : db.platform = db'.platform) :
    t.linkKey db id k = t.linkKey db' id k := by
  have hend : linkEnd db id k = linkEnd db' id k := by
    funext t e
    exact linkEnd_congr h e
  simp only [linkKey, hp, hend, completedIn_of_outline_eq h, DeclaredKey.touches_congr h]

theorem linkAll_congr (h : db.outline = db'.outline) (hp : db.platform = db'.platform)
    (keys : List DeclaredKey) : t.linkAll db id keys = t.linkAll db' id keys := by
  have hkey : linkKey db id = linkKey db' id := by
    funext t k
    exact linkKey_congr h hp
  rw [linkAll, linkAll, hkey]

/-- A key that has nothing to do with a table leaves it alone. -/
theorem linkEnds_of_not_touches (h : ¬ k.Touches db id) (ends : List KeyEnd) :
    ends.foldl (linkEnd db id k) t = t := by
  obtain ⟨howner, htarget⟩ := not_or.1 h
  have hend : ∀ e, t.linkEnd db id k e = t := by
    intro e
    cases e with
    | target => exact if_neg htarget
    | localColumn column => exact if_neg fun h => howner h.1
    | foreignColumn column => exact if_neg htarget
  induction ends with
  | nil => rfl
  | cons e rest ih => rw [List.foldl_cons, hend e, ih]

theorem linkKey_of_not_touches (h : ¬ k.Touches db id) : t.linkKey db id k = t := by
  rw [linkKey, if_neg fun hn => h hn.2, linkEnds_of_not_touches h]

end Table

/-! ## One key, at the whole database -/

namespace DeclaredKey

variable {db : Database} {k : DeclaredKey}

/-- Linking one end changes every table by itself. -/
theorem connect_eq_mapTables (k : DeclaredKey) (db : Database) (e : KeyEnd) :
    k.connect db e = db.mapTables fun id t => t.linkEnd db id k e := by
  cases e with
  | target =>
    rw [connect]
    cases htarget : db.tableId? k.key.foreignTable with
    | none => exact (Database.mapTables_eq_self fun id t _ => by simp [Table.linkEnd, htarget]).symm
    | some target =>
      dsimp only
      rw [Database.modifyTable_eq_mapTables]
      exact Database.mapTables_congr fun id t _ => by simp [Table.linkEnd, htarget, eq_comm]
  | localColumn column =>
    rw [connect]
    -- the table that may be marked is the one that declares the key
    split
    · rename_i hprimary
      rw [Database.modifyTable_eq_mapTables]
      refine Database.mapTables_congr fun id t ht => ?_
      by_cases howner : id = k.id.table
      · subst howner
        rw [ht] at hprimary
        simp only [Table.linkEnd, true_and, if_true]
        exact (if_pos hprimary).symm
      · rw [if_neg howner]
        exact (if_neg fun h => howner h.1.symm).symm
    · rename_i hprimary
      refine (Database.mapTables_eq_self fun id t ht => if_neg ?_).symm
      rintro ⟨rfl, hany⟩
      rw [ht] at hprimary
      exact hprimary hany
  | foreignColumn column =>
    rw [connect]
    cases htarget : db.tableId? k.key.foreignTable with
    | none => exact (Database.mapTables_eq_self fun id t _ => by simp [Table.linkEnd, htarget]).symm
    | some target =>
      dsimp only
      rw [Database.modifyTable_eq_mapTables]
      exact Database.mapTables_congr fun id t _ => by simp [Table.linkEnd, htarget, eq_comm]

/-- Where an end dangles there is nothing to connect. -/
theorem connect_of_dangling {e : KeyEnd} {d : DanglingEnd} (h : k.dangling? db e = some d) :
    k.connect db e = db := by
  cases e with
  | target =>
    have hnone : db.tableId? k.key.foreignTable = none := by
      rw [dangling?, Database.hasTable] at h
      split at h
      · cases h
      · rename_i hsome
        exact Option.not_isSome_iff_eq_none.1 hsome
    rw [connect, hnone]
  | localColumn column =>
    rw [connect, if_neg]
    intro hany
    obtain ⟨c, hc, -⟩ := (Option.any_eq_true _ _).1 hany
    obtain ⟨t, ht, hcolumn⟩ := Option.bind_eq_some_iff.1 hc
    have hhas : t.hasColumn column = true := by
      obtain ⟨hmem, rfl⟩ := Table.column?_eq_some_iff.1 hcolumn
      exact Table.hasColumn_iff.2 (List.mem_map_of_mem hmem)
    rw [dangling?, ht] at h
    simp [hhas] at h
  | foreignColumn column =>
    rw [connect]
    cases htarget : db.tableId? k.key.foreignTable with
    | none => rfl
    | some target =>
      rw [dangling?, Database.tableByName?, htarget, Option.bind_some] at h
      show db.modifyTable target _ = db
      rw [Database.modifyTable_eq_mapTables]
      refine Database.mapTables_eq_self fun id t ht => ?_
      split
      · rename_i hid
        subst hid
        rw [ht] at h
        have hno : column ∉ t.columnNames := by
          intro hmem
          simp [Table.hasColumn_iff.2 hmem] at h
        have hsame : t.columns.amend column (·.addReferrer k.id) = t.columns :=
          Columns.amend_eq_self fun c hc hname => absurd (hname ▸ List.mem_map_of_mem hc) hno
        rw [Table.amendColumn, hsame]
      · rfl

end DeclaredKey

end RelSchema
