import RelSchema.Proofs.Idempotence

/-!
# Resolving in steps

Tables can join a schema after it was resolved. The keys of the earlier tables stand before those of
the later ones and are found under the same handles, so what the first run does to a table is what a
run over all tables does to it with the earlier keys. The second run finds that done, and goes on
with the later keys. Resolving in steps therefore comes to the same database as resolving once
(`Database.stepwise_eq_atOnce`), unless an earlier table comes with an edge of a later key, which
the first run cannot look up.
-/

namespace RelSchema

/-! ## Databases that extend another one -/

namespace Database

variable {db db' : Database}

theorem length_outline (db : Database) : db.outline.length = db.tables.length := List.length_map _

/-- Earlier tables are found under their names in both databases. -/
theorem tableId?_eq_some_iff_of_extends (h : db.outline <+: db'.outline) {id : TableId}
    (hid : id.index < db.outline.length) (name : String) :
    db.tableId? name = some id ↔ db'.tableId? name = some id := by
  obtain ⟨rest, hrest⟩ := h
  rw [tableId?_eq_outline, tableId?_eq_outline, ← hrest, List.findIdx?_append]
  cases hfound : db.outline.findIdx? (·.1 == name) with
  | some place => simp
  | none =>
    simp only [Option.map_none, reduceCtorEq, false_iff, Option.none_or, Option.map_map,
      Option.map_eq_some_iff]
    rintro ⟨place, -, rfl⟩
    exact Nat.not_lt.2 (Nat.le_add_left _ _) hid

/-- A handle of a key of an earlier table means the same key in both databases. -/
theorem foreignKey?_of_extends (h : db.outline <+: db'.outline) {id : ForeignKeyId}
    (hid : id.table.index < db.outline.length) : db.foreignKey? id = db'.foreignKey? id := by
  obtain ⟨rest, hrest⟩ := h
  rw [foreignKey?_eq_outline, foreignKey?_eq_outline, ← hrest, List.getElem?_append_left hid]

/-- The keys of the earlier tables are linked first. -/
theorem allKeys_of_extends (h : db.outline <+: db'.outline) :
    ∃ later, db'.allKeys = db.allKeys ++ later := by
  obtain ⟨rest, hrest⟩ := h
  have hids : db'.tableIds = db.tableIds ++
      (List.range rest.length).map fun n => ⟨db.outline.length + n⟩ := by
    rw [tableIds_eq_outline, tableIds_eq_outline, ← hrest, List.length_append, List.range_add,
      List.map_append, List.map_map]
    rfl
  have hkeys : ∀ id ∈ db.tableIds, db'.declaredKeys id = db.declaredKeys id := by
    intro id hid
    rw [tableIds_eq_outline, List.mem_map] at hid
    obtain ⟨place, hplace, rfl⟩ := hid
    rw [declaredKeys_eq_outline, declaredKeys_eq_outline, ← hrest,
      List.getElem?_append_left (List.mem_range.1 hplace)]
  have hearlier : db.tableIds.flatMap db'.declaredKeys = db.allKeys := by
    rw [allKeys, List.flatMap_def, List.flatMap_def, List.map_congr_left hkeys]
  have hkeysSplit : db'.allKeys = db.tableIds.flatMap db'.declaredKeys ++
      ((List.range rest.length).map fun n => ⟨db.outline.length + n⟩).flatMap db'.declaredKeys := by
    rw [allKeys, hids, List.flatMap_append]
  exact ⟨_, hearlier ▸ hkeysSplit⟩

/-- Two databases with the same settings and the same tables. -/
theorem eq_of_table?_eq (hname : db.name = db'.name) (hplatform : db.platform = db'.platform)
    (hschema : db.defaultSchema = db'.defaultSchema) (hdefaults : db.defaults = db'.defaults)
    (htables : ∀ id, db.table? id = db'.table? id) : db = db' := by
  have hlist : db.tables = db'.tables := List.ext_getElem? fun place => htables ⟨place⟩
  cases db
  cases db'
  cases hname
  cases hplatform
  cases hschema
  cases hdefaults
  cases hlist
  rfl

theorem table?_withTables_of_lt {id : TableId} (h : id.index < db.tables.length)
    (ts : List Table) : (db.withTables ts).table? id = db.table? id :=
  List.getElem?_append_left h

theorem table?_withTables_of_le {id : TableId} (h : db.tables.length ≤ id.index)
    (ts : List Table) :
    (db.withTables ts).table? id = (ts[id.index - db.tables.length]?).map db.adopted := by
  rw [← List.getElem?_map]
  exact List.getElem?_append_right h

end Database

/-! ## Linking an earlier table -/

namespace Table

variable {db db' : Database} {id : TableId} {k : DeclaredKey} {t : Table}

/-- The keys that linking can record at a table. -/
theorem mem_referrers_linkEnds {key : ForeignKeyId} (ends : List KeyEnd)
    (h : key ∈ (ends.foldl (linkEnd db id k) t).referrers) : key ∈ t.referrers ∨ key = k.id := by
  induction ends generalizing t with
  | nil => exact Or.inl h
  | cons e rest ih =>
    rcases ih (t := t.linkEnd db id k e) h with h | h
    · cases e with
      | target =>
        rw [linkEnd] at h
        split at h
        · exact mem_referrers_addReferrer.1 h
        · exact Or.inl h
      | localColumn column =>
        rw [linkEnd] at h
        split at h <;> exact Or.inl h
      | foreignColumn column =>
        rw [linkEnd] at h
        split at h <;> exact Or.inl h
    · exact Or.inr h

theorem mem_referrers_linkKey {key : ForeignKeyId} (h : key ∈ (t.linkKey db id k).referrers) :
    key ∈ t.referrers ∨ key = k.id := by
  unfold linkKey at h
  split at h
  · rw [completedIn_eq_withIndices] at h
    exact mem_referrers_linkEnds _ h
  · exact mem_referrers_linkEnds _ h

/-- Whether the edges at a table mean the same keys in both databases. -/
def EdgesAgree (db db' : Database) (t : Table) : Prop :=
  ∀ key ∈ t.referrers, db.foreignKey? key = db'.foreignKey? key

/-- One key does the same to an earlier table in both databases. Edges matter only where indices
follow from them. -/
theorem linkKey_of_extends (h : db.outline <+: db'.outline) (hp : db.platform = db'.platform)
    (hid : id.index < db.outline.length) (hk : db.foreignKey? k.id = db'.foreignKey? k.id)
    (hedges : db.platform.needsKeyIndices = true → t.EdgesAgree db db') :
    t.linkKey db id k = t.linkKey db' id k := by
  have htarget := Database.tableId?_eq_some_iff_of_extends h hid k.key.foreignTable
  have hend : linkEnd db id k = linkEnd db' id k := by
    funext t e
    cases e <;> simp only [linkEnd, htarget]
  have htouches : k.Touches db id ↔ k.Touches db' id := by
    rw [DeclaredKey.Touches, DeclaredKey.Touches, htarget]
  unfold linkKey
  rw [hend]
  by_cases hn : db.platform.needsKeyIndices = true ∧ k.Touches db id
  · rw [if_pos hn, if_pos ⟨hp ▸ hn.1, htouches.1 hn.2⟩]
    refine completedIn_congr fun key hkey => ?_
    rcases mem_referrers_linkEnds _ hkey with hold | rfl
    · exact hedges hn.1 key hold
    · exact hk
  · rw [if_neg hn, if_neg fun hn' => hn ⟨hp ▸ hn'.1, htouches.2 hn'.2⟩]

theorem linkAll_of_extends (h : db.outline <+: db'.outline) (hp : db.platform = db'.platform)
    (hid : id.index < db.outline.length) {keys : List DeclaredKey}
    (hkeys : ∀ k ∈ keys, db.foreignKey? k.id = db'.foreignKey? k.id)
    (hedges : db.platform.needsKeyIndices = true → t.EdgesAgree db db') :
    t.linkAll db id keys = t.linkAll db' id keys := by
  induction keys generalizing t with
  | nil => rfl
  | cons k rest ih =>
    have hk := hkeys k List.mem_cons_self
    have hfirst := linkKey_of_extends h hp hid hk hedges
    show (t.linkKey db id k).linkAll db id rest = (t.linkKey db' id k).linkAll db' id rest
    rw [← hfirst]
    -- the only edge that is new is the handle of the earlier key itself
    refine ih (fun k' hk' => hkeys k' (List.mem_cons_of_mem _ hk')) fun hneeds key hkey => ?_
    rcases mem_referrers_linkKey hkey with hold | rfl
    · exact hedges hneeds key hold
    · exact hk

/-- **The second run goes on where the first one ended.** Linking an earlier table through the
earlier keys, and then through all keys, is linking it through all keys. -/
theorem linkAll_linkAll_of_extends (h : db.outline <+: db'.outline)
    (hp : db.platform = db'.platform) (hid : id.index < db.outline.length)
    (hedges : db.platform.needsKeyIndices = true → t.EdgesAgree db db') :
    (t.linkAll db id db.allKeys).linkAll db' id db'.allKeys = t.linkAll db' id db'.allKeys := by
  obtain ⟨later, hlater⟩ := Database.allKeys_of_extends h
  have hkeys : ∀ k ∈ db.allKeys, db.foreignKey? k.id = db'.foreignKey? k.id := by
    intro k hk
    obtain ⟨u, hu, -⟩ := Database.mem_allKeys_iff.1 hk
    refine Database.foreignKey?_of_extends h ?_
    rw [Database.length_outline]
    exact (List.getElem?_eq_some_iff.1 hu).1
  have happend : ∀ u : Table, u.linkAll db' id db'.allKeys =
      (u.linkAll db' id db.allKeys).linkAll db' id later := by
    intro u
    rw [hlater, linkAll, List.foldl_append]
    rfl
  have hagain : (t.linkAll db' id db.allKeys).linkAll db' id db.allKeys =
      t.linkAll db' id db.allKeys :=
    linkAll_of_hasLinked fun k hk => hasLinked_linkAll hk t
  calc (t.linkAll db id db.allKeys).linkAll db' id db'.allKeys
      = (t.linkAll db' id db.allKeys).linkAll db' id db'.allKeys := by
        rw [linkAll_of_extends h hp hid hkeys hedges]
    _ = ((t.linkAll db' id db.allKeys).linkAll db' id db.allKeys).linkAll db' id later := happend _
    _ = t.linkAll db' id db'.allKeys := by rw [hagain, happend]

end Table

/-! ## Two ways to resolve two lists of tables -/

namespace Table

variable {t : Table}

theorem referrers_finalized (t : Table) (maxLength : Nat) :
    (t.finalized maxLength).referrers = t.referrers :=
  (revises_finalize BehaviorRegistry.revising_builtIn t .standard maxLength).referrers

end Table

namespace Database

variable {db : Database} {A B : List Table}

/-- The database as a tolerant resolve leaves it. -/
def resolved (timestamp : String) (db : Database) : Except SchemaError Database :=
  match (Resolver.standard .tolerant).resolve timestamp db with
  | (db, .ok _) => .ok db
  | (_, .error e) => .error e

/-- All tables first, and then one resolve. -/
def atOnce (timestamp : String) (A B : List Table) (db : Database) :
    Except SchemaError Database := do
  let db ← db.addTables A
  let db ← db.addTables B
  db.resolved timestamp

/-- A resolve of the tables of `A`, and another one when those of `B` have joined them. -/
def stepwise (timestamp timestamp' : String) (A B : List Table) (db : Database) :
    Except SchemaError Database := do
  let db ← db.addTables A
  let db ← db.resolved timestamp
  let db ← db.addTables B
  db.resolved timestamp'

/-- Whether a table of `A` comes with an edge that is the handle of a key of a table of `B`, when
the tables of `B` are added behind those of `A`. -/
def EdgeAhead (A B : List Table) : Prop :=
  ∃ t ∈ A, ∃ key ∈ t.referrers, ∃ place u, key.table = ⟨A.length + place⟩ ∧ B[place]? = some u ∧
    key.position < u.foreignKeys.length

/-- A tolerant resolve of tables whose behaviors are known finalizes and links every table by
itself. -/
theorem resolve_of_known (timestamp : String)
    (h : ∀ t ∈ db.tables, BehaviorRegistry.Known t) : ∃ report,
    (Resolver.standard .tolerant).resolve timestamp db = (db.finalized.linked, .ok report) := by
  have hfinalize : ((Resolver.standard .tolerant).finalize ⟨db, { timestamp }⟩).error = none :=
    Resolver.error_finalize_standard_iff.2 h
  have hlink : ((Resolver.standard .tolerant).link
      ((Resolver.standard .tolerant).finalize ⟨db, { timestamp }⟩).state).error = none :=
    Resolver.error_link_eq_none_iff.2 (Or.inl rfl)
  have hdb := Resolver.db_link hlink
  rw [Resolver.db_finalize_standard hfinalize] at hdb
  have hresolve := Resolver.resolve_eq_ok_iff.2 ⟨hfinalize, hlink, rfl⟩
  rw [hdb] at hresolve
  exact ⟨_, hresolve⟩

theorem resolved_of_known (timestamp : String)
    (h : ∀ t ∈ db.tables, BehaviorRegistry.Known t) :
    db.resolved timestamp = .ok db.finalized.linked := by
  obtain ⟨report, hresolve⟩ := resolve_of_known timestamp h
  rw [resolved, hresolve]

@[simp] theorem length_tables_mapTables (f : TableId → Table → Table) (db : Database) :
    (db.mapTables f).tables.length = db.tables.length := List.length_mapIdx

theorem names_finalized (db : Database) :
    db.finalized.tables.map (·.name) = db.tables.map (·.name) :=
  names_mapTables fun _ t _ =>
    (Table.revises_finalize BehaviorRegistry.revising_builtIn t .standard _).name

theorem names_linked (db : Database) :
    db.linked.tables.map (·.name) = db.tables.map (·.name) :=
  names_mapTables fun id t _ => congrArg (·.2.name) (Table.declaration_linkAll db id db.allKeys t)

theorem finished_finalized (h : ∀ t ∈ db.tables, BehaviorRegistry.Known t) :
    db.finalized.Finished := by
  intro t' ht'
  obtain ⟨id, t, ht, rfl⟩ := mem_tables_mapTables ht'
  exact Table.finished_finalized (h t (List.mem_of_getElem? ht)) _

theorem known_adopted {t : Table} (h : BehaviorRegistry.Known t) :
    BehaviorRegistry.Known (db.adopted t) := h

/-! ## The second run -/

/-- An earlier table as a run over the earlier tables leaves it, and a later one as it is. -/
def linkedEarlier (db : Database) (id : TableId) (t : Table) : Table :=
  if id.index < db.outline.length then t.linkAll db id db.allKeys else t

theorem outline_linkedEarlier (db db' : Database) :
    (db'.mapTables db.linkedEarlier).outline = db'.outline := by
  refine outline_mapTables_of_declaration fun id t => ?_
  unfold linkedEarlier
  split
  · exact Table.declaration_linkAll db id db.allKeys t
  · rfl

/-- Linking all tables once more makes up for the keys that the earlier run did not see. -/
theorem linked_linkedEarlier {db' : Database} (h : db.outline <+: db'.outline)
    (hp : db.platform = db'.platform)
    (hedges : db.platform.needsKeyIndices = true → ∀ id t, id.index < db.outline.length →
      db'.table? id = some t → t.EdgesAgree db db') :
    (db'.mapTables db.linkedEarlier).linked = db'.linked := by
  have houtline := outline_linkedEarlier db db'
  rw [linked, mapTables_mapTables, linked, allKeys_congr houtline]
  refine mapTables_congr fun id t ht => ?_
  rw [Table.linkAll_congr houtline rfl]
  unfold linkedEarlier
  split
  · rename_i hid
    exact Table.linkAll_linkAll_of_extends h hp hid fun hneeds => hedges hneeds id t hid ht
  · rfl

/-- An earlier table is finished, and a second first phase finds nothing to do there. -/
theorem finalized_linkAll_finalized {t : Table} (hknown : BehaviorRegistry.Known t)
    (hheavy : t.effectiveHeavyIndexing = false) (maxLength : Nat) (id : TableId)
    (keys : List DeclaredKey) : ((t.finalized maxLength).linkAll db id keys).finalized maxLength =
      (t.finalized maxLength).linkAll db id keys := by
  have hfinished : ((t.finalized maxLength).linkAll db id keys).Finished :=
    (Table.finished_finalized hknown maxLength).linkAll db id keys
  have hoff : ((t.finalized maxLength).linkAll db id keys).effectiveHeavyIndexing = false := by
    calc ((t.finalized maxLength).linkAll db id keys).effectiveHeavyIndexing
        = (t.finalized maxLength).effectiveHeavyIndexing :=
          congrArg (·.2.effectiveHeavyIndexing) (Table.declaration_linkAll db id keys _)
      _ = t.effectiveHeavyIndexing := Table.effectiveHeavyIndexing_finalized hknown maxLength
      _ = false := hheavy
  refine Table.finalized_of_finished hfinished (fun heffective => ?_) maxLength
  rw [hoff] at heffective
  cases heffective

/-- The second first phase leaves the earlier tables as the first run left them, and finalizes the
later ones. -/
theorem finalized_withTables (hknown : ∀ t ∈ db.tables, BehaviorRegistry.Known t)
    (hheavy : ∀ t ∈ db.tables, t.effectiveHeavyIndexing = false) (B : List Table) :
    (db.finalized.linked.withTables B).finalized =
      (db.withTables B).finalized.mapTables db.finalized.linkedEarlier := by
  have hlength : db.finalized.linked.tables.length = db.tables.length := by
    rw [linked, finalized, length_tables_mapTables, length_tables_mapTables]
  have houtline : db.finalized.outline.length = db.tables.length := by
    rw [length_outline, finalized, length_tables_mapTables]
  refine eq_of_table?_eq rfl rfl rfl rfl fun id => ?_
  rw [table?_finalized, table?_mapTables, table?_finalized]
  -- table by table: an earlier one was finished and linked, a later one is as it was added
  by_cases hid : id.index < db.tables.length
  · rw [table?_withTables_of_lt (hlength ▸ hid), table?_withTables_of_lt hid, table?_linked,
      table?_finalized]
    cases ht : db.table? id with
    | none => rfl
    | some t =>
      have hmem := List.mem_of_getElem? ht
      simp only [Option.map_some, linkedEarlier, houtline, if_pos hid]
      exact congrArg some (finalized_linkAll_finalized (hknown t hmem) (hheavy t hmem) _ id _)
  · have hle : db.tables.length ≤ id.index := Nat.not_lt.1 hid
    rw [table?_withTables_of_le (hlength ▸ hle), table?_withTables_of_le hle, hlength]
    have hearlier : db.finalized.linkedEarlier id = fun t => t := by
      funext t
      exact if_neg (houtline ▸ hid)
    rw [hearlier, Option.map_id']
    rfl

theorem outline_prefix_withTables (db : Database) (B : List Table) :
    db.finalized.outline <+: (db.withTables B).finalized.outline := by
  rw [outline, outline, finalized, finalized, tables_mapTables_const, tables_mapTables_const]
  refine ⟨((B.map db.adopted).map
    (Table.finalized db.platform.maxIdentifierLength)).map Table.outline, ?_⟩
  show _ = ((db.tables ++ B.map db.adopted).map _).map _
  rw [List.map_append, List.map_append]
  rfl

/-- An edge that is no handle of a later key means the same key, or none, in both runs. -/
theorem edgesAgree_of_not_edgeAhead (hempty : db.tables = [])
    (hB : ∀ u ∈ B, BehaviorRegistry.Known u)
    (hahead : ¬ EdgeAhead A B) {t t' : Table} (ht : t ∈ A) (ht' : t'.referrers = t.referrers) :
    t'.EdgesAgree (db.withTables A).finalized ((db.withTables A).withTables B).finalized := by
  intro key hkey
  have hlength : (db.withTables A).tables.length = A.length := by
    rw [withTables, hempty, List.nil_append, List.length_map]
  -- a handle of an earlier table means its key in both runs, one behind them all means no key
  by_cases hplace : key.table.index < A.length
  · refine foreignKey?_of_extends (outline_prefix_withTables _ B) ?_
    rw [length_outline, finalized, length_tables_mapTables, hlength]
    exact hplace
  · have hle : (db.withTables A).tables.length ≤ key.table.index := hlength ▸ Nat.not_lt.1 hplace
    have hnone : (db.withTables A).finalized.foreignKey? key = none := by
      have htable : (db.withTables A).table? key.table = none := List.getElem?_eq_none hle
      rw [foreignKey?, table?_finalized, htable]
      rfl
    rw [hnone, foreignKey?, table?_finalized, table?_withTables_of_le hle, hlength]
    cases hu : B[key.table.index - A.length]? with
    | none => rfl
    | some u =>
      have hknown : BehaviorRegistry.Known ((db.withTables A).adopted u) :=
        known_adopted (hB u (List.mem_of_getElem? hu))
      have hbeyond : u.foreignKeys.length ≤ key.position := by
        rw [← Nat.not_lt]
        intro hlt
        refine hahead ⟨t, ht, key, ht' ▸ hkey, key.table.index - A.length, u, ?_, hu, hlt⟩
        rw [Nat.add_sub_cancel' (Nat.not_lt.1 hplace)]
      refine (List.getElem?_eq_none ?_).symm
      rw [Table.length_foreignKeys_finalized hknown]
      exact hbeyond

/-- Whether the first run came in between or not, the last one leaves the same tables. -/
theorem linked_withTables (hempty : db.tables = [])
    (hheavy : ∀ t ∈ A, (db.adopted t).effectiveHeavyIndexing = false)
    (hA : ∀ t ∈ A, BehaviorRegistry.Known t) (hB : ∀ u ∈ B, BehaviorRegistry.Known u)
    (hahead : db.platform.needsKeyIndices = true → ¬ EdgeAhead A B) :
    ((db.withTables A).finalized.linked.withTables B).finalized.linked =
      ((db.withTables A).withTables B).finalized.linked := by
  have hnone : ∀ t ∈ db.tables, False := by
    rw [hempty]
    exact fun _ ht => nomatch ht
  have hknownA : ∀ t ∈ (db.withTables A).tables, BehaviorRegistry.Known t :=
    forall_mem_withTables (fun t ht => (hnone t ht).elim) fun t ht => known_adopted (hA t ht)
  have hheavyA : ∀ t ∈ (db.withTables A).tables, t.effectiveHeavyIndexing = false :=
    forall_mem_withTables (fun t ht => (hnone t ht).elim) hheavy
  rw [finalized_withTables hknownA hheavyA]
  refine linked_linkedEarlier (outline_prefix_withTables _ B) rfl fun hneeds id t' hid ht' => ?_
  -- finalizing keeps the edges that a table of `A` came with
  rw [table?_finalized] at ht'
  obtain ⟨t, ht, rfl⟩ := Option.map_eq_some_iff.1 ht'
  rw [length_outline, finalized, length_tables_mapTables] at hid
  have hle : db.tables.length ≤ id.index := by
    rw [hempty]
    exact Nat.zero_le _
  rw [table?_withTables_of_lt hid, table?_withTables_of_le hle] at ht
  obtain ⟨u, hu, rfl⟩ := Option.map_eq_some_iff.1 ht
  exact edgesAgree_of_not_edgeAhead hempty hB (hahead hneeds) (List.mem_of_getElem? hu)
    (Table.referrers_finalized _ _)

/-- Adding tables under new names and resolving then goes through. -/
theorem resolved_addTables (db : Database) (ts : List Table) (timestamp : String)
    (hnames : (db.tables.map (·.name) ++ ts.map (·.name)).Nodup)
    (hknown : ∀ t ∈ db.tables, BehaviorRegistry.Known t)
    (hts : ∀ t ∈ ts, BehaviorRegistry.Known t) :
    (do let d ← db.addTables ts; d.resolved timestamp) =
      .ok (db.withTables ts).finalized.linked := by
  rw [addTables_of_nodup hnames]
  exact resolved_of_known timestamp
    (forall_mem_withTables hknown fun t ht => known_adopted (hts t ht))

/-- **Stepwise is at once.** Starting from an empty database, resolving the tables of `A` and then
all tables comes to the same database as resolving all tables at once. On platforms that need
indices behind foreign keys, no table of `A` may come with an edge of a later key. -/
theorem stepwise_eq_atOnce (hempty : db.tables = [])
    (hnames : ((A ++ B).map (·.name)).Nodup)
    (hheavy : ∀ t ∈ A ++ B, (db.adopted t).effectiveHeavyIndexing = false)
    (hknown : ∀ t ∈ A ++ B, BehaviorRegistry.Known t)
    (hahead : db.platform.needsKeyIndices = true → ¬ EdgeAhead A B)
    (timestamp timestamp' timestamp'' : String) :
    ∃ db', db.stepwise timestamp timestamp' A B = .ok db' ∧
      db.atOnce timestamp'' A B = .ok db' := by
  have hA : ∀ t ∈ A, BehaviorRegistry.Known t := fun t ht => hknown t (List.mem_append_left _ ht)
  have hB : ∀ u ∈ B, BehaviorRegistry.Known u := fun u hu => hknown u (List.mem_append_right _ hu)
  have hnone : ∀ t ∈ db.tables, BehaviorRegistry.Known t := by
    rw [hempty]
    exact fun _ ht => nomatch ht
  have hknownA : ∀ t ∈ (db.withTables A).tables, BehaviorRegistry.Known t :=
    forall_mem_withTables hnone fun t ht => known_adopted (hA t ht)
  rw [List.map_append] at hnames
  have hnamesA : (db.tables.map (·.name) ++ A.map (·.name)).Nodup := by
    rw [hempty]
    exact (List.nodup_append.1 hnames).1
  have hwithA : (db.withTables A).tables.map (·.name) = A.map (·.name) := by
    rw [names_withTables, hempty]
    rfl
  -- the first run keeps the names, and its tables are finished
  have hfirst := resolved_addTables db A timestamp hnamesA hnone hA
  have hknownFirst : ∀ t ∈ (db.withTables A).finalized.linked.tables, BehaviorRegistry.Known t :=
    fun t ht => ((finished_finalized hknownA).linked t ht).known
  -- so the tables of `B` can join them, and the second run comes to what one run does
  have hsecond := resolved_addTables (db.withTables A).finalized.linked B timestamp'
    (by rwa [names_linked, names_finalized, hwithA]) hknownFirst hB
  have hsame := linked_withTables hempty (fun t ht => hheavy t (List.mem_append_left _ ht)) hA hB
    hahead
  have honce := resolved_addTables (db.withTables A) B timestamp''
    (by rwa [hwithA]) hknownA hB
  refine ⟨((db.withTables A).withTables B).finalized.linked, ?_, ?_⟩
  · calc db.stepwise timestamp timestamp' A B
        = ((do let d ← db.addTables A; d.resolved timestamp) >>= fun d =>
            (do let d ← d.addTables B; d.resolved timestamp')) := (bind_assoc _ _ _).symm
      _ = (do let d ← (db.withTables A).finalized.linked.addTables B; d.resolved timestamp') := by
          rw [hfirst]
          rfl
      _ = .ok ((db.withTables A).withTables B).finalized.linked := hsame ▸ hsecond
  · rw [atOnce, addTables_of_nodup hnamesA]
    exact honce

def emptyShop : Database := { name := "shop", platform := .mysql }

/-- Books, whose key points at authors that join them later. -/
def earlyBooks : List Table :=
  [{ name := "book"
     columns := Columns.empty.push
       { name := "author_id", columnType := .integer } (Columns.not_contains_empty "author_id")
     foreignKeys := [{ foreignTable := "author", references := [⟨"author_id", "id"⟩] }] }]

def lateAuthors : List Table :=
  [{ name := "author"
     columns := Columns.empty.push
       { name := "id", columnType := .integer } (Columns.not_contains_empty "id") }]

/-- New tables have no edges, so on every platform they can come in steps. -/
theorem stepwise_eq_atOnce_lateAuthors : emptyShop.tables = [] ∧
    ((earlyBooks ++ lateAuthors).map (·.name)).Nodup ∧
    (∀ t ∈ earlyBooks ++ lateAuthors, (emptyShop.adopted t).effectiveHeavyIndexing = false) ∧
    (∀ t ∈ earlyBooks ++ lateAuthors, BehaviorRegistry.Known t) ∧
    ¬ EdgeAhead earlyBooks lateAuthors ∧
    ∃ db', emptyShop.stepwise "" "" earlyBooks lateAuthors = .ok db' ∧
      emptyShop.atOnce "" earlyBooks lateAuthors = .ok db' := by
  have hnames : ((earlyBooks ++ lateAuthors).map (·.name)).Nodup := by decide +kernel
  have hheavy : ∀ t ∈ earlyBooks ++ lateAuthors,
      (emptyShop.adopted t).effectiveHeavyIndexing = false := by decide +kernel
  have hknown : ∀ t ∈ earlyBooks ++ lateAuthors, BehaviorRegistry.Known t := by decide +kernel
  have hahead : ¬ EdgeAhead earlyBooks lateAuthors := by
    rintro ⟨t, ht, key, hkey, -⟩
    rw [List.mem_singleton.1 ht] at hkey
    cases hkey
  exact ⟨rfl, hnames, hheavy, hknown, hahead,
    stepwise_eq_atOnce rfl hnames hheavy hknown (fun _ => hahead) "" "" ""⟩

/-- A table that refers to itself and comes with an edge of a key that joins it later. -/
def edgedBooks : List Table :=
  [{ name := "book"
     columns := (Columns.empty.push
       { name := "sequel_id", columnType := .integer }
         (Columns.not_contains_empty "sequel_id")).push
       { name := "id", columnType := .integer } (by decide +kernel)
     foreignKeys := [{ foreignTable := "book", references := [⟨"sequel_id", "id"⟩] }]
     referrers := [⟨⟨1⟩, 0⟩] }]

def lateReviews : List Table :=
  [{ name := "review"
     columns := Columns.empty.push
       { name := "book_id", columnType := .integer } (Columns.not_contains_empty "book_id")
     foreignKeys := [{ foreignTable := "book", references := [⟨"book_id", "id"⟩] }] }]

/-- In steps the index behind the books' own key is added before the key of the reviews is known;
at once it is that key which comes first and gives its name to the index. -/
theorem stepwise_ne_atOnce : emptyShop.tables = [] ∧
    ((edgedBooks ++ lateReviews).map (·.name)).Nodup ∧
    (∀ t ∈ edgedBooks ++ lateReviews, (emptyShop.adopted t).effectiveHeavyIndexing = false) ∧
    (∀ t ∈ edgedBooks ++ lateReviews, BehaviorRegistry.Known t) ∧
    (emptyShop.stepwise "" "" edgedBooks lateReviews).toOption.isSome = true ∧
    (emptyShop.stepwise "" "" edgedBooks lateReviews).toOption ≠
      (emptyShop.atOnce "" edgedBooks lateReviews).toOption := by
  decide +kernel

end Database

end RelSchema
