import Mathlib.Data.List.Nodup
import RelSchema.Proofs.Accounting
import RelSchema.Proofs.LinkRun

/-!
# Settled tables

Linking only adds: edges and marks stay, and indices change no more once the table is complete.
So a table that went through a list of keys has all that these keys record and need there
(`Table.hasLinked_linkAll`), and such a table is left alone by each of them, in whatever order they
come again (`Table.linkAll_of_hasLinked`). A database whose tables are all settled in this sense is
not changed by another run (`Resolver.link_of_settled`).
-/

namespace RelSchema

namespace Table

/-! ## Edges are not taken away -/

theorem mem_primaryKeyNames_iff {t : Table} {column : String} :
    column ∈ t.primaryKeyNames ↔ ∃ c ∈ t.columns.list, c.primaryKey = true ∧ c.name = column := by
  simp only [primaryKeyNames, primaryKey, List.mem_map, List.mem_filter, and_assoc]

/-- Whether linking a local column marks the table depends on the declaration only. -/
theorem any_primaryKey_iff {t : Table} {column : String} :
    (t.column? column).any (·.primaryKey) = true ↔ column ∈ t.primaryKeyNames := by
  rw [Option.any_eq_true, mem_primaryKeyNames_iff]
  constructor
  · rintro ⟨c, hc, hprimary⟩
    obtain ⟨hmem, hname⟩ := column?_eq_some_iff.1 hc
    exact ⟨c, hmem, hprimary, hname⟩
  · rintro ⟨c, hmem, hprimary, hname⟩
    exact ⟨c, column?_eq_some_iff.2 ⟨hmem, hname⟩, hprimary⟩

/-- The same table with at least the same edges. -/
structure EdgesLe (t t' : Table) : Prop where
  declared : t.declaration = t'.declaration
  referrers : ∀ key ∈ t.referrers, key ∈ t'.referrers
  marked : t.containsForeignPrimaryKey = true → t'.containsForeignPrimaryKey = true
  columns : ∀ c' ∈ t'.columns.list, ∃ c ∈ t.columns.list, c.name = c'.name ∧
    ∀ key ∈ c.referrers, key ∈ c'.referrers

theorem EdgesLe.refl (t : Table) : t.EdgesLe t :=
  ⟨rfl, fun _ h => h, fun h => h, fun c hc => ⟨c, hc, rfl, fun _ h => h⟩⟩

theorem EdgesLe.trans {t u v : Table} (h : t.EdgesLe u) (h' : u.EdgesLe v) : t.EdgesLe v where
  declared := h.declared.trans h'.declared
  referrers key hkey := h'.referrers key (h.referrers key hkey)
  marked hmark := h'.marked (h.marked hmark)
  columns c hc := by
    obtain ⟨c', hc', hname', hsub'⟩ := h'.columns c hc
    obtain ⟨c'', hc'', hname'', hsub''⟩ := h.columns c' hc'
    exact ⟨c'', hc'', hname''.trans hname', fun key hkey => hsub' key (hsub'' key hkey)⟩

theorem edgesLe_withIndices (t : Table) (indices : List Index) :
    t.EdgesLe (t.withIndices indices) :=
  ⟨rfl, fun _ h => h, fun h => h, fun c hc => ⟨c, hc, rfl, fun _ h => h⟩⟩

/-- Edges with one more, unless it is among them already. -/
def recorded (key : ForeignKeyId) (keys : List ForeignKeyId) : List ForeignKeyId :=
  if keys.contains key then keys else keys ++ [key]

theorem mem_recorded_iff {key key' : ForeignKeyId} {keys : List ForeignKeyId} :
    key' ∈ recorded key keys ↔ key' ∈ keys ∨ key' = key := by
  unfold recorded
  split
  · rename_i hhas
    refine ⟨Or.inl, ?_⟩
    rintro (hmem | rfl)
    · exact hmem
    · exact List.contains_iff_mem.1 hhas
  · simp only [List.mem_append, List.mem_singleton]

theorem nodup_recorded {keys : List ForeignKeyId} (h : keys.Nodup) (key : ForeignKeyId) :
    (recorded key keys).Nodup := by
  unfold recorded
  split
  · exact h
  · rename_i hnew
    rw [← List.concat_eq_append]
    exact List.Nodup.concat (fun hmem => hnew (List.contains_iff_mem.2 hmem)) h

theorem referrers_addReferrer (t : Table) (key : ForeignKeyId) :
    (t.addReferrer key).referrers = recorded key t.referrers := by
  unfold addReferrer hasReferrer recorded
  split <;> rfl

theorem column_referrers_addReferrer (c : Column) (key : ForeignKeyId) :
    (c.addReferrer key).referrers = recorded key c.referrers := by
  unfold Column.addReferrer Column.hasReferrer recorded
  split <;> rfl

theorem mem_referrers_addReferrer {t : Table} {key key' : ForeignKeyId} :
    key' ∈ (t.addReferrer key).referrers ↔ key' ∈ t.referrers ∨ key' = key := by
  rw [referrers_addReferrer, mem_recorded_iff]

theorem mem_column_referrers_addReferrer {c : Column} {key key' : ForeignKeyId} :
    key' ∈ (c.addReferrer key).referrers ↔ key' ∈ c.referrers ∨ key' = key := by
  rw [column_referrers_addReferrer, mem_recorded_iff]

theorem name_addReferrer (c : Column) (key : ForeignKeyId) : (c.addReferrer key).name = c.name := by
  unfold Column.addReferrer
  split <;> rfl

/-- The columns of a table after an edge was recorded at one of them. -/
theorem list_amendColumn_addReferrer (t : Table) (column : String) (key : ForeignKeyId) :
    (t.amendColumn column (·.addReferrer key)).columns.list =
      t.columns.list.map fun c => if c.name = column then c.addReferrer key else c := by
  show (t.columns.amend column (·.addReferrer key)).list = _
  rw [Columns.list_amend]
  simp only [amended_addReferrer]

theorem edgesLe_addReferrer (t : Table) (key : ForeignKeyId) : t.EdgesLe (t.addReferrer key) := by
  unfold addReferrer
  split
  · exact .refl t
  · exact ⟨rfl, fun _ h => List.mem_append_left _ h, fun h => h,
      fun c hc => ⟨c, hc, rfl, fun _ h => h⟩⟩

theorem edgesLe_markForeignPrimaryKey (t : Table) : t.EdgesLe t.markForeignPrimaryKey :=
  ⟨rfl, fun _ h => h, fun _ => rfl, fun c hc => ⟨c, hc, rfl, fun _ h => h⟩⟩

theorem edgesLe_amendColumn (t : Table) (column : String) (key : ForeignKeyId) :
    t.EdgesLe (t.amendColumn column (·.addReferrer key)) where
  declared := (declaration_amendColumn_addReferrer t column key).symm
  referrers _ h := h
  marked h := h
  columns c' hc' := by
    rw [list_amendColumn_addReferrer] at hc'
    obtain ⟨c, hc, rfl⟩ := List.mem_map.1 hc'
    refine ⟨c, hc, ?_, ?_⟩
    · split
      · exact (name_addReferrer c key).symm
      · rfl
    · intro key' hkey'
      split
      · exact mem_column_referrers_addReferrer.2 (Or.inl hkey')
      · exact hkey'

theorem edgesLe_linkEnd (db : Database) (id : TableId) (k : DeclaredKey) (t : Table) (e : KeyEnd) :
    t.EdgesLe (t.linkEnd db id k e) := by
  cases e with
  | target =>
    rw [linkEnd]
    split
    · exact edgesLe_addReferrer t k.id
    · exact .refl t
  | localColumn column =>
    rw [linkEnd]
    split
    · exact edgesLe_markForeignPrimaryKey t
    · exact .refl t
  | foreignColumn column =>
    rw [linkEnd]
    split
    · exact edgesLe_amendColumn t column k.id
    · exact .refl t

theorem edgesLe_linkEnds (db : Database) (id : TableId) (k : DeclaredKey) (t : Table)
    (ends : List KeyEnd) : t.EdgesLe (ends.foldl (linkEnd db id k) t) := by
  induction ends generalizing t with
  | nil => exact .refl t
  | cons e rest ih => exact (edgesLe_linkEnd db id k t e).trans (ih _)

theorem edgesLe_linkKey (db : Database) (id : TableId) (t : Table) (k : DeclaredKey) :
    t.EdgesLe (t.linkKey db id k) := by
  unfold linkKey
  split
  · rw [completedIn_eq_withIndices]
    exact (edgesLe_linkEnds db id k t _).trans (edgesLe_withIndices _ _)
  · exact edgesLe_linkEnds db id k t _

/-! ## What a linked key leaves at a table -/

/-- Whether the table has what linking this end of a key records at it. -/
def HasEnd (db : Database) (id : TableId) (k : DeclaredKey) (t : Table) : KeyEnd → Prop
  | .target => db.tableId? k.key.foreignTable = some id → k.id ∈ t.referrers
  | .localColumn column =>
    k.id.table = id → column ∈ t.primaryKeyNames → t.containsForeignPrimaryKey = true
  | .foreignColumn column =>
    db.tableId? k.key.foreignTable = some id →
      ∀ c ∈ t.columns.list, c.name = column → k.id ∈ c.referrers

/-- Whether the table has all that linking a key records and adds there. -/
structure HasLinked (db : Database) (id : TableId) (k : DeclaredKey) (t : Table) : Prop where
  ends : ∀ e ∈ k.key.ends, t.HasEnd db id k e
  complete : db.platform.needsKeyIndices = true → k.Touches db id → t.CompleteIn db

variable {db db' : Database} {id : TableId} {k : DeclaredKey} {t t' : Table} {e : KeyEnd}

theorem hasEnd_linkEnd (db : Database) (id : TableId) (k : DeclaredKey) (t : Table) (e : KeyEnd) :
    (t.linkEnd db id k e).HasEnd db id k e := by
  cases e with
  | target =>
    intro htarget
    rw [linkEnd, if_pos htarget]
    exact mem_referrers_addReferrer.2 (Or.inr rfl)
  | localColumn column =>
    intro howner hcolumn
    rw [primaryKeyNames_eq_of_declaration_eq (declaration_linkEnd db id k t _)] at hcolumn
    rw [linkEnd, if_pos ⟨howner, any_primaryKey_iff.2 hcolumn⟩]
    rfl
  | foreignColumn column =>
    intro htarget c' hc' hname
    rw [linkEnd, if_pos htarget, list_amendColumn_addReferrer] at hc'
    obtain ⟨c, -, rfl⟩ := List.mem_map.1 hc'
    split at hname
    · rename_i hc
      rw [if_pos hc]
      exact mem_column_referrers_addReferrer.2 (Or.inr rfl)
    · rename_i hc
      exact absurd hname hc

theorem HasEnd.mono (h : t.HasEnd db id k e) (hle : t.EdgesLe t') : t'.HasEnd db id k e := by
  cases e with
  | target => exact fun htarget => hle.referrers _ (h htarget)
  | localColumn column =>
    intro howner hcolumn
    rw [← primaryKeyNames_eq_of_declaration_eq hle.declared] at hcolumn
    exact hle.marked (h howner hcolumn)
  | foreignColumn column =>
    intro htarget c' hc' hname
    obtain ⟨c, hc, hcname, hsub⟩ := hle.columns c' hc'
    exact hsub _ (h htarget c hc (hcname.trans hname))

/-- Recording what is there already changes nothing. -/
theorem linkEnd_of_hasEnd (h : t.HasEnd db id k e) : t.linkEnd db id k e = t := by
  cases e with
  | target =>
    rw [linkEnd]
    split
    · rename_i htarget
      exact if_pos (List.contains_iff_mem.2 (h htarget))
    · rfl
  | localColumn column =>
    rw [linkEnd]
    split
    · rename_i hcolumn
      have hmark : t.containsForeignPrimaryKey = true :=
        h hcolumn.1 (any_primaryKey_iff.1 hcolumn.2)
      rw [markForeignPrimaryKey, ← hmark]
    · rfl
  | foreignColumn column =>
    rw [linkEnd]
    split
    · rename_i htarget
      have hsame : t.columns.amend column (·.addReferrer k.id) = t.columns :=
        Columns.amend_eq_self fun c hc hname => (amended_addReferrer c k.id).trans
          (if_pos (List.contains_iff_mem.2 (h htarget c hc hname)))
      rw [amendColumn, hsame]
    · rfl

theorem hasEnd_linkEnds (db : Database) (id : TableId) (k : DeclaredKey) (t : Table)
    (ends : List KeyEnd) : ∀ e ∈ ends, (ends.foldl (linkEnd db id k) t).HasEnd db id k e := by
  induction ends generalizing t with
  | nil => simp
  | cons e rest ih =>
    intro e' he'
    rcases List.mem_cons.1 he' with rfl | he'
    · exact (hasEnd_linkEnd db id k t e').mono (edgesLe_linkEnds db id k _ rest)
    · exact ih _ e' he'

theorem linkEnds_of_hasEnd {ends : List KeyEnd} (h : ∀ e ∈ ends, t.HasEnd db id k e) :
    ends.foldl (linkEnd db id k) t = t := by
  induction ends with
  | nil => rfl
  | cons e rest ih =>
    rw [List.foldl_cons, linkEnd_of_hasEnd (h e List.mem_cons_self)]
    exact ih fun e' he' => h e' (List.mem_cons_of_mem _ he')

/-! ## What a linked key leaves stays -/

theorem hasLinked_linkKey (db : Database) (id : TableId) (t : Table) (k : DeclaredKey) :
    (t.linkKey db id k).HasLinked db id k := by
  constructor
  case ends =>
    intro e he
    have hends := hasEnd_linkEnds db id k t k.key.ends e he
    unfold linkKey
    split
    · rw [completedIn_eq_withIndices]
      exact hends.mono (edgesLe_withIndices _ _)
    · exact hends
  case complete =>
    intro hneeds htouches
    rw [linkKey, if_pos ⟨hneeds, htouches⟩]
    exact completeIn_completedIn db _

/-- Another key adds edges, and completes the table anew if it adds to what the table needs. -/
theorem HasLinked.linkKey (h : t.HasLinked db id k) (k' : DeclaredKey) :
    (t.linkKey db id k').HasLinked db id k := by
  constructor
  case ends => exact fun e he => (h.ends e he).mono (edgesLe_linkKey db id t k')
  case complete =>
    intro hneeds htouches
    -- the other key may have added a referrer, and with it something that the table needs
    by_cases htouches' : k'.Touches db id
    · exact (hasLinked_linkKey db id t k').complete hneeds htouches'
    · rw [linkKey_of_not_touches htouches']
      exact h.complete hneeds htouches

theorem HasLinked.linkAll (h : t.HasLinked db id k) (keys : List DeclaredKey) :
    (t.linkAll db id keys).HasLinked db id k := by
  induction keys generalizing t with
  | nil => exact h
  | cons k' rest ih => exact ih (h.linkKey k')

theorem linkKey_of_hasLinked (h : t.HasLinked db id k) : t.linkKey db id k = t := by
  have hends : k.key.ends.foldl (linkEnd db id k) t = t := linkEnds_of_hasEnd h.ends
  unfold Table.linkKey
  split
  · rename_i hn
    rw [hends, completedIn_of_completeIn (h.complete hn.1 hn.2)]
  · exact hends

theorem hasLinked_congr (h : db.outline = db'.outline) (hp : db.platform = db'.platform)
    (hlinked : t.HasLinked db id k) : t.HasLinked db' id k := by
  constructor
  case ends =>
    intro e he
    have hend := hlinked.ends e he
    cases e with
    | target => exact fun htarget => hend ((Database.tableId?_congr h _).trans htarget)
    | localColumn column => exact hend
    | foreignColumn column =>
      exact fun htarget => hend ((Database.tableId?_congr h _).trans htarget)
  case complete =>
    intro hneeds htouches
    rw [← completeIn_congr fun key _ => Database.foreignKey?_congr h key]
    exact hlinked.complete (hp ▸ hneeds) ((k.touches_congr h id).2 htouches)

/-- **Settled.** A table that went through a list of keys has what each of them leaves there. -/
theorem hasLinked_linkAll {keys : List DeclaredKey} (h : k ∈ keys) (t : Table) :
    (t.linkAll db id keys).HasLinked db id k := by
  induction keys generalizing t with
  | nil => cases h
  | cons k' rest ih =>
    -- the key leaves it there when its turn comes, and the keys after it do not take it away
    rcases List.mem_cons.1 h with rfl | h
    · exact (hasLinked_linkKey db id t k).linkAll rest
    · exact ih h _

theorem linkAll_of_hasLinked {keys : List DeclaredKey} (h : ∀ k ∈ keys, t.HasLinked db id k) :
    t.linkAll db id keys = t := by
  induction keys with
  | nil => rfl
  | cons k rest ih =>
    show (t.linkKey db id k).linkAll db id rest = t
    rw [linkKey_of_hasLinked (h k List.mem_cons_self)]
    exact ih fun k' hk' => h k' (List.mem_cons_of_mem _ hk')

end Table

/-! ## Settled databases -/

namespace Database

variable {db : Database} {id : TableId}

/-- A database in which every table has what each key leaves there. -/
def Settled (db : Database) : Prop :=
  ∀ id t, db.table? id = some t → ∀ k ∈ db.allKeys, t.HasLinked db id k

theorem settled_linked (db : Database) : db.linked.Settled := by
  intro id t ht k hk
  rw [table?_linked] at ht
  obtain ⟨t, -, rfl⟩ := Option.map_eq_some_iff.1 ht
  rw [allKeys_congr (outline_linked db)] at hk
  exact Table.hasLinked_congr (outline_linked db).symm rfl (Table.hasLinked_linkAll hk t)

/-- The target of a settled key knows the key. -/
theorem Settled.mem_referrers (h : db.Settled) {k : DeclaredKey} (hk : k ∈ db.allKeys) {t : Table}
    (htarget : db.tableId? k.key.foreignTable = some id) (ht : db.table? id = some t) :
    k.id ∈ t.referrers :=
  (h id t ht k hk).ends .target List.mem_cons_self htarget

theorem Settled.connect (h : db.Settled) {k : DeclaredKey} (hk : k ∈ db.allKeys) {e : KeyEnd}
    (he : e ∈ k.key.ends) : k.connect db e = db := by
  rw [k.connect_eq_mapTables]
  exact mapTables_eq_self fun id t ht => Table.linkEnd_of_hasEnd ((h id t ht k hk).ends e he)

/-- All edges of a settled database are known. -/
theorem Settled.newEdges (h : db.Settled) {k : DeclaredKey} (hk : k ∈ db.allKeys) {e : KeyEnd}
    (he : e ∈ k.key.ends) : k.newEdges db e = 0 := by
  have htarget : ∀ t, db.tableByName? k.key.foreignTable = some t →
      ∃ id, db.tableId? k.key.foreignTable = some id ∧ db.table? id = some t := by
    intro t ht
    rw [tableByName?] at ht
    exact Option.bind_eq_some_iff.1 ht
  cases e with
  | target =>
    refine if_pos ((Option.all_eq_true _ _).2 fun t ht => ?_)
    obtain ⟨id, hid, hfound⟩ := htarget t ht
    exact List.contains_iff_mem.2 (h.mem_referrers hk hid hfound)
  | localColumn column => rfl
  | foreignColumn column =>
    refine if_pos ((Option.all_eq_true _ _).2 fun c hc => ?_)
    obtain ⟨t, ht, hcolumn⟩ := Option.bind_eq_some_iff.1 hc
    obtain ⟨id, hid, hfound⟩ := htarget t ht
    obtain ⟨hmem, hname⟩ := Table.column?_eq_some_iff.1 hcolumn
    exact List.contains_iff_mem.2 ((h id t hfound k hk).ends _ he hid c hmem hname)

theorem synthesizeIndices_of_completeIn (h : ∀ t, db.table? id = some t → t.CompleteIn db) :
    db.synthesizeIndices id = (db, []) := by
  have hdb : (db.synthesizeIndices id).1 = db := by
    rw [db_synthesizeIndices]
    refine mapTables_eq_self fun i t ht => ?_
    split
    · rename_i hi
      exact Table.completedIn_of_completeIn (h t (hi ▸ ht))
    · rfl
  refine Prod.ext hdb ?_
  rw [synthesizeIndices]
  cases ht : db.table? id with
  | none => rfl
  | some t => exact (Table.run_worklist_of_completeIn (h t ht)).2

end Database

/-- The edges and the indices that were added. -/
def LinkOutcome.additions (outcome : LinkOutcome) : Nat × List SynthesizedIndex :=
  (outcome.edgesAdded, outcome.synthesized)

namespace LinkState

variable {check : ReferenceCheck} {k : DeclaredKey} {s : LinkState}

theorem synthesize_of_completeIn {id : TableId}
    (h : ∀ t, s.db.table? id = some t → t.CompleteIn s.db) : s.synthesize id = s := by
  rw [synthesize, Database.synthesizeIndices_of_completeIn h]
  show { s with outcome := { s.outcome with synthesized := s.outcome.synthesized ++ [] } } = s
  rw [List.append_nil]

theorem synthesizeFor_of_settled (h : s.db.Settled) (hk : k ∈ s.db.allKeys) :
    s.synthesizeFor k = s := by
  unfold synthesizeFor
  split
  · rename_i hneeds
    have hcomplete : ∀ id, k.Touches s.db id → s.synthesize id = s := fun id htouches =>
      synthesize_of_completeIn fun t ht => (h id t ht k hk).complete hneeds htouches
    rw [hcomplete _ (Or.inl rfl)]
    dsimp only
    cases htarget : s.db.tableId? k.key.foreignTable with
    | none => rfl
    | some target =>
      dsimp only
      split
      · rfl
      · exact hcomplete target (Or.inr htarget)
  · rfl

/-- A visit to an end of a key of a settled database neither changes the database nor adds
anything. -/
theorem visitEnd_of_settled (h : s.db.Settled) (hk : k ∈ s.db.allKeys) {e : KeyEnd}
    (he : e ∈ k.key.ends) : (visitEnd check k s e).state.db = s.db ∧
      (visitEnd check k s e).state.outcome.additions = s.outcome.additions := by
  constructor
  · rcases db_visitEnd_cases check k s e with hdb | hdb
    · exact hdb
    · rw [hdb, h.connect hk he]
  · unfold visitEnd
    rw [h.newEdges hk he]
    cases k.dangling? s.db e <;> cases check <;> rfl

theorem visitKey_of_settled (h : s.db.Settled) (hk : k ∈ s.db.allKeys) :
    (visitKey check s k).state.db = s.db ∧
      (visitKey check s k).state.outcome.additions = s.outcome.additions := by
  have hends : (Walk.along (visitEnd check k) s.counted k.key.ends).state.db = s.db ∧
      (Walk.along (visitEnd check k) s.counted k.key.ends).state.outcome.additions =
        s.outcome.additions := by
    refine Walk.along_invariant (P := fun v : LinkState =>
      v.db = s.db ∧ v.outcome.additions = s.outcome.additions) ?_ ⟨rfl, rfl⟩
    rintro v e he ⟨hdb, hadditions⟩
    obtain ⟨hdb', hadditions'⟩ :=
      visitEnd_of_settled (s := v) (hdb ▸ h) (hdb ▸ hk) he
    exact ⟨hdb'.trans hdb, hadditions'.trans hadditions⟩
  have hsynthesize : (Walk.along (visitEnd check k) s.counted k.key.ends).state.synthesizeFor k =
      (Walk.along (visitEnd check k) s.counted k.key.ends).state :=
    synthesizeFor_of_settled (by rw [hends.1]; exact h) (by rw [hends.1]; exact hk)
  have hvisit : (visitKey check s k).state =
      (Walk.along (visitEnd check k) s.counted k.key.ends).state := by
    show (Walk.andThen _ _).state = _
    rw [Walk.andThen]
    split
    · exact hsynthesize
    · rfl
  rw [hvisit]
  exact hends

end LinkState

namespace Resolver

variable {r : Resolver} {s : Resolution} {db : Database}

theorem keyWalk_of_settled (h : db.Settled) (id : TableId) :
    (r.keyWalk db id).state.db = db ∧ (r.keyWalk db id).state.outcome.additions = (0, []) := by
  refine Walk.along_invariant (P := fun v : LinkState => v.db = db ∧ v.outcome.additions = (0, []))
    ?_ ⟨rfl, rfl⟩
  rintro v k hk ⟨hdb, hadditions⟩
  have hall : k ∈ v.db.allKeys := by
    obtain ⟨t, ht, hname, hid, hkey⟩ := Database.mem_declaredKeys_iff.1 hk
    rw [hdb]
    exact Database.mem_allKeys_iff.2 ⟨t, hid.symm ▸ ht, hname, hkey⟩
  obtain ⟨hdb', hadditions'⟩ := LinkState.visitKey_of_settled (hdb ▸ h) hall
  exact ⟨hdb'.trans hdb, hadditions'.trans hadditions⟩

/-- Of what the report counts, linking a settled table adds to the linked keys only. -/
theorem linkTable_of_settled (h : s.db.Settled) (id : TableId) :
    (r.linkTable s id).state.db = s.db ∧
      (r.linkTable s id).state.report.summary.namesAssigned = s.report.summary.namesAssigned ∧
      (r.linkTable s id).state.report.summary.indicesSynthesized =
        s.report.summary.indicesSynthesized := by
  obtain ⟨hdb, hadditions⟩ := keyWalk_of_settled (r := r) h id
  have hsynthesized : (r.keyWalk s.db id).state.outcome.synthesized = [] :=
    congrArg Prod.snd hadditions
  refine ⟨(db_linkTable r s id).trans hdb, ?_⟩
  cases herror : (r.linkTable s id).error with
  | none =>
    rw [report_linkTable herror]
    have hwork := Report.work_addLinked s.report (r.keyWalk s.db id).state.outcome
    rw [hsynthesized] at hwork
    exact ⟨ReportSummary.namesAssigned_of_work hwork,
      ReportSummary.indicesSynthesized_of_work hwork⟩
  | some e => rw [report_linkTable_of_error herror]; exact ⟨rfl, rfl⟩

/-- **A settled database is left alone.** Linking it again changes nothing and adds no index. -/
theorem link_of_settled (h : s.db.Settled) :
    (r.link s).state.db = s.db ∧
      (r.link s).state.report.summary.namesAssigned = s.report.summary.namesAssigned ∧
      (r.link s).state.report.summary.indicesSynthesized =
        s.report.summary.indicesSynthesized := by
  refine Walk.along_invariant (P := fun v : Resolution => v.db = s.db ∧
    v.report.summary.namesAssigned = s.report.summary.namesAssigned ∧
    v.report.summary.indicesSynthesized = s.report.summary.indicesSynthesized) ?_ ⟨rfl, rfl, rfl⟩
  rintro v id - ⟨hdb, hnames, hindices⟩
  obtain ⟨hdb', hnames', hindices'⟩ := linkTable_of_settled (r := r) (s := v) (hdb ▸ h) id
  exact ⟨hdb'.trans hdb, hnames'.trans hnames, hindices'.trans hindices⟩

end Resolver

end RelSchema
