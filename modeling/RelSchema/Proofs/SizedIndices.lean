import RelSchema.Proofs.CompletionRounds
import RelSchema.Proofs.CoverageReplay

/-!
# Indices over the beginnings of columns

An index may store no more than the beginning of a column. Completing a table looks at the names of
columns only, so it does not see this: whatever sizes the indices of a table have, the same indices
are added as if there were none (`Database.synthesizeIndices_withoutSizes`). The added ones store
their columns in full, but a requirement for which none is added may be left to an index that does
not (`Database.synthesizeIndices_sizedIndex`).
-/

namespace RelSchema

namespace Index

/-- Whether the index begins with these columns and stores each of them in full. -/
def LeadsInFull (index : Index) (columns : List String) : Prop :=
  (columns.map fun c => (⟨c, none⟩ : IndexColumn)) <+: index.columns

/-- Whether the index begins with these columns but stores only the beginning of one of them. -/
def LeadsPartly (index : Index) (columns : List String) : Prop :=
  columns <+: index.columnNames ∧ ∃ c ∈ index.columns.take columns.length, c.size ≠ none

instance (index : Index) (columns : List String) : Decidable (index.LeadsInFull columns) :=
  inferInstanceAs (Decidable (_ <+: _))

instance (index : Index) (columns : List String) : Decidable (index.LeadsPartly columns) :=
  inferInstanceAs (Decidable (_ ∧ _))

variable {index : Index} {columns : List String}

theorem LeadsInFull.eq_take (h : index.LeadsInFull columns) :
    index.columns.take columns.length = columns.map fun c => ⟨c, none⟩ := by
  have htake := List.prefix_iff_eq_take.1 h
  rw [List.length_map] at htake
  exact htake.symm

/-- An index that begins with some columns does so either in full or partly. -/
theorem leadsPartly_iff :
    index.LeadsPartly columns ↔ columns <+: index.columnNames ∧ ¬ index.LeadsInFull columns := by
  refine and_congr_right fun hleads => ⟨?_, ?_⟩
  · rintro ⟨c, hc, hsize⟩ hfull
    rw [hfull.eq_take] at hc
    obtain ⟨column, -, rfl⟩ := List.mem_map.1 hc
    exact hsize rfl
  · intro hnot
    by_contra hall
    simp only [ne_eq, not_exists, not_and, not_not] at hall
    -- columns without sizes are told by their names
    have hnames := List.prefix_iff_eq_take.1 hleads
    rw [columnNames, ← List.map_take] at hnames
    have hsame : (columns.map fun c => (⟨c, none⟩ : IndexColumn)) =
        index.columns.take columns.length :=
      calc columns.map (fun c => (⟨c, none⟩ : IndexColumn))
        _ = ((index.columns.take columns.length).map (·.name)).map fun c => ⟨c, none⟩ :=
          congrArg _ hnames
        _ = (index.columns.take columns.length).map id := by
          rw [List.map_map]
          refine List.map_congr_left fun c hc => ?_
          rw [id, Function.comp, ← hall c hc]
        _ = index.columns.take columns.length := List.map_id _
    refine hnot ?_
    rw [LeadsInFull, hsame]
    exact List.take_prefix _ _

theorem resetSizes_resetSizes (index : Index) : index.resetSizes.resetSizes = index.resetSizes := by
  simp [resetSizes, Function.comp_def]

end Index

/-- The index that a report stands for stores the reported columns in full. -/
theorem SynthesizedIndex.leadsInFull_index {entry : SynthesizedIndex} {columns : List String}
    (h : columns <+: entry.columns) : entry.index.LeadsInFull columns := by
  have hcolumns : entry.index.columns = entry.columns.map fun c => ⟨c, none⟩ := by
    simp [index, Index.on, Index.resetSizes, Function.comp_def]
  rw [Index.LeadsInFull, hcolumns]
  exact h.map _

/-! ## Tables without sizes -/

namespace Table

/-- The table with all its indices and unique constraints over their columns in full. -/
def withoutSizes (t : Table) : Table :=
  { t with indices := t.indices.map Index.resetSizes, uniques := t.uniques.map Index.resetSizes }

variable {t : Table}

theorem constructs_withoutSizes (t : Table) : t.withoutSizes.constructs = t.constructs := by
  have hnames : ∀ l : List Index, (l.map Index.resetSizes).map
      (fun index => (index.name, index.columnNames)) =
        l.map fun index => (index.name, index.columnNames) := by
    intro l
    rw [List.map_map]
    refine List.map_congr_left fun index _ => ?_
    exact congrArg (index.name, ·) index.columnNames_resetSizes
  have hall : (t.withoutSizes.indices ++ t.withoutSizes.uniques) =
      (t.indices ++ t.uniques).map Index.resetSizes := List.map_append.symm
  rw [constructs, constructs, hall, hnames]
  rfl

/-- A coverage map does not see sizes. -/
theorem ofTable_withoutSizes (t : Table) :
    CoverageMap.ofTable t.withoutSizes = CoverageMap.ofTable t := by
  rw [CoverageMap.ofTable_eq_foldl, constructs_withoutSizes, ← CoverageMap.ofTable_eq_foldl]

theorem hasIndex_withoutSizes (t : Table) (name : String) :
    t.withoutSizes.hasIndex name = t.hasIndex name := by
  show (t.indices.map Index.resetSizes).any _ = _
  rw [List.any_map]
  rfl

theorem freeIndexName_withoutSizes (t : Table) (base : String) :
    freeIndexName t.withoutSizes base = freeIndexName t base := by
  have hlength : t.withoutSizes.indices.length = t.indices.length := List.length_map _
  simp only [freeIndexName, hasIndex_withoutSizes, hlength]

theorem withoutSizes_addIndex (t : Table) (index : Index) :
    (t.addIndex index).withoutSizes = t.withoutSizes.addIndex index.resetSizes := by
  unfold withoutSizes addIndex
  rw [List.map_append]
  rfl

/-- An index is taken out by its name. -/
theorem removeIndex_withoutSizes (t : Table) (name : String) : t.withoutSizes.removeIndex name =
    (t.removeIndex name).map fun removed => (removed.1.resetSizes, removed.2.withoutSizes) := by
  have hfind : t.withoutSizes.index? name = (t.index? name).map Index.resetSizes :=
    List.find?_map ..
  have herase : (t.indices.map Index.resetSizes).eraseP (·.name == name) =
      (t.indices.eraseP (·.name == name)).map Index.resetSizes :=
    List.eraseP_map ..
  unfold removeIndex
  rw [hfind]
  cases t.index? name with
  | none => rfl
  | some index => exact congrArg (fun indices => Except.ok (index.resetSizes,
      t.withoutSizes.withIndices indices)) herase

/-- Whether no name of a column holds a comma, in the table or in its indices. -/
def CommaFree (t : Table) : Prop :=
  (∀ column ∈ t.columnNames, ',' ∉ column.toList) ∧
    ∀ index ∈ t.indices ++ t.uniques, ∀ column ∈ index.columnNames, ',' ∉ column.toList

instance (t : Table) : Decidable t.CommaFree :=
  inferInstanceAs (Decidable ((∀ column ∈ t.columnNames, _) ∧ ∀ index ∈ t.indices ++ t.uniques,
    ∀ column ∈ index.columnNames, _))

end Table

/-! ## Runs that do not see sizes -/

namespace Worklist

def withoutSizes (w : Worklist) : Worklist := { w with table := w.table.withoutSizes }

theorem indexName_withoutSizes (w : Worklist) (r : Requirement) :
    w.withoutSizes.indexName r = w.indexName r := by
  show (if w.hasCreated (w.baseName r) then freeIndexName w.table.withoutSizes (w.baseName r)
    else w.baseName r) = _
  rw [Table.freeIndexName_withoutSizes]
  rfl

theorem dropStale_withoutSizes (w : Worklist) (name : String) :
    w.withoutSizes.dropStale name = (w.dropStale name).withoutSizes := by
  have hremove : w.withoutSizes.table.removeIndex name = _ :=
    w.table.removeIndex_withoutSizes name
  unfold dropStale
  rw [hremove]
  cases w.table.removeIndex name with
  | error e => rfl
  | ok removed => rfl

theorem create_withoutSizes (w : Worklist) (name : String) (r : Requirement) :
    w.withoutSizes.create name r = (w.create name r).withoutSizes := by
  have hadd := w.table.withoutSizes_addIndex { (Index.on r.columns).resetSizes with name }
  have hfull : ({ (Index.on r.columns).resetSizes with name } : Index).resetSizes =
      { (Index.on r.columns).resetSizes with name } :=
    congrArg (fun index : Index => { index with name }) (Index.resetSizes_resetSizes _)
  rw [hfull] at hadd
  exact congrArg (fun table => { w.create name r with table }) hadd.symm

/-- **Step.** -/
theorem step_withoutSizes (w : Worklist) (r : Requirement) :
    w.withoutSizes.step r = (w.step r).withoutSizes := by
  by_cases hcov : w.coverage.isCovered r.columns = true
  · rw [step_of_covered hcov, step_of_covered (w := w.withoutSizes) hcov]
    rfl
  · rw [step_of_uncovered hcov, step_of_uncovered (w := w.withoutSizes) hcov,
      indexName_withoutSizes, ← create_withoutSizes, ← dropStale_withoutSizes]
    rfl

/-- **Run.** -/
theorem run_withoutSizes (w : Worklist) : w.withoutSizes.run = w.run.withoutSizes := by
  have hstep : ∀ (v : Worklist) (r : Requirement) (rest : List Requirement),
      v.pending = r :: rest → w.withoutSizes.run = v.withoutSizes.run →
        w.withoutSizes.run = ({ v with pending := rest }.step r).withoutSizes.run := by
    intro v r rest hp hv
    rw [hv, run_of_pending_cons (w := v.withoutSizes) hp, ← step_withoutSizes]
    rfl
  obtain ⟨hrun, hnil⟩ := run_induction hstep (w := w) rfl
  rw [hrun, run_of_pending_nil (w := w.run.withoutSizes) hnil]

end Worklist

/-! ## Completing a table of a database -/

namespace Table

variable {db : Database} {t : Table}

/-- The requirements of a table come from the outline of its database, which has no sizes. -/
theorem completed_withoutSizes {db' : Database} (h : db'.outline = db.outline) (t : Table) :
    t.withoutSizes.completedIn db' = (t.completedIn db).withoutSizes ∧
      t.withoutSizes.createdIn db' = t.createdIn db := by
  have hrequirements : db'.requirements t.withoutSizes = db.requirements t :=
    Database.requirements_congr fun key _ => Database.foreignKey?_congr h key
  have hworklist : db'.worklist t.withoutSizes = (db.worklist t).withoutSizes := by
    rw [Database.worklist, hrequirements, ofTable_withoutSizes]
    rfl
  rw [completedIn, createdIn, hworklist, Worklist.run_withoutSizes]
  exact ⟨rfl, rfl⟩

/-- Whether the primary key, an index or a unique constraint of the table begins with these columns
and stores each of them in full. -/
def ServesInFull (t : Table) (columns : List String) : Prop :=
  columns <+: t.primaryKeyNames ∨
    ∃ index ∈ t.indices ++ t.uniques, index.LeadsInFull columns

instance (t : Table) (columns : List String) : Decidable (t.ServesInFull columns) :=
  inferInstanceAs (Decidable (_ ∨ ∃ index ∈ t.indices ++ t.uniques, _))

/-- The added indices store their columns in full. -/
theorem servesInFull_of_mem_createdIn {entry : SynthesizedIndex} (hentry : entry ∈ t.createdIn db)
    {columns : List String} (h : columns <+: entry.columns) :
    (t.completedIn db).ServesInFull columns := by
  refine Or.inr ⟨entry.index, List.mem_append_left _ ?_, SynthesizedIndex.leadsInFull_index h⟩
  rw [completedIn_eq_replaced]
  exact List.mem_append_right _ (List.mem_map_of_mem hentry)

/-- What is there after completing was there before or is reported. -/
theorem mem_completedIn_cases {index : Index}
    (h : index ∈ (t.completedIn db).indices ++ (t.completedIn db).uniques) :
    index ∈ t.indices ++ t.uniques ∨ ∃ entry ∈ t.createdIn db, index = entry.index := by
  rw [completedIn_eq_replaced] at h
  rcases List.mem_append.1 h with hindex | hunique
  · rcases List.mem_append.1 hindex with hold | hnew
    · exact Or.inl (List.mem_append_left _ ((t.remainingIndices_sublist _).subset hold))
    · obtain ⟨entry, hentry, rfl⟩ := List.mem_map.1 hnew
      exact Or.inr ⟨entry, hentry, rfl⟩
  · exact Or.inl (List.mem_append_right _ hunique)

/-- A requirement is served in full, or left to an old index that stores the beginning of a column,
or mistaken for other columns. -/
theorem served_cases {r : Requirement} (hr : r ∈ db.requirements t) :
    (t.completedIn db).ServesInFull r.columns ∨
    (∃ index ∈ t.indices ++ t.uniques,
      index ∈ (t.completedIn db).indices ++ (t.completedIn db).uniques ∧
        index.LeadsPartly r.columns) ∨
    ∃ construct ∈ (t.completedIn db).constructs, ∃ columns, columns <+: construct.2 ∧
      columns ≠ [] ∧ columns ≠ r.columns ∧
        CoverageMap.columnKey columns = CoverageMap.columnKey r.columns := by
  have hreq : r ∈ db.requirements (t.completedIn db) := by
    rwa [completedIn_eq_withIndices, Database.requirements_withIndices]
  obtain ⟨name, hlists⟩ := (CoverageMap.isCovered_iff (CoverageMap.tight_ofTable _)).1
    (completeIn_completedIn db t r hreq)
  obtain ⟨construct, hconstruct, -, hkey⟩ := CoverageMap.lists_ofTable.1 hlists
  obtain ⟨columns, hcolumns, hsame⟩ := List.mem_map.1 hkey
  obtain ⟨hne, hleads⟩ := mem_leadingLists_iff.1 hcolumns
  by_cases heq : columns = r.columns
  · subst heq
    rcases List.mem_cons.1 hconstruct with rfl | hindex
    · exact Or.inl (Or.inl hleads)
    · obtain ⟨index, hmem, rfl⟩ := List.mem_map.1 hindex
      by_cases hfull : index.LeadsInFull r.columns
      · exact Or.inl (Or.inr ⟨index, hmem, hfull⟩)
      · rcases mem_completedIn_cases hmem with hold | ⟨entry, hentry, rfl⟩
        · exact Or.inr (Or.inl ⟨index, hold, hmem, Index.leadsPartly_iff.2 ⟨hleads, hfull⟩⟩)
        · rw [SynthesizedIndex.columnNames_index] at hleads
          exact Or.inl (servesInFull_of_mem_createdIn hentry hleads)
  · exact Or.inr (Or.inr ⟨construct, hconstruct, columns, hleads, hne, heq, hsame⟩)

/-- Completing a table brings no commas into it. -/
theorem CommaFree.constructs_completedIn (h : t.CommaFree) {construct : String × List String}
    (hconstruct : construct ∈ (t.completedIn db).constructs) :
    ∀ column ∈ construct.2, ',' ∉ column.toList := by
  rcases List.mem_cons.1 hconstruct with rfl | hindex
  · intro column hcolumn
    rw [completedIn_eq_withIndices] at hcolumn
    obtain ⟨c, hc, -, rfl⟩ := mem_primaryKeyNames_iff.1 hcolumn
    exact h.1 _ (List.mem_map_of_mem hc)
  · obtain ⟨index, hmem, rfl⟩ := List.mem_map.1 hindex
    rcases mem_completedIn_cases hmem with hold | ⟨entry, hentry, rfl⟩
    · exact h.2 index hold
    · -- the columns of a reported index are those of a requirement
      obtain ⟨earlier, later, hsplit⟩ := List.append_of_mem hentry
      obtain ⟨r, hr, hcolumns⟩ := ((t.completing_run db).added earlier entry later hsplit).required
      rw [SynthesizedIndex.columnNames_index, hcolumns]
      exact fun column hcolumn =>
        h.1 column ((Database.mem_requirements_iff.1 hr).2.2 column hcolumn)

end Table

namespace Database

variable {db db' : Database} {id : TableId} {t t' : Table} {created : List SynthesizedIndex}

/-- **Completing a table does not see sizes.** -/
theorem synthesizeIndices_withoutSizes (db : Database) (id : TableId) :
    (db.modifyTable id Table.withoutSizes).synthesizeIndices id =
      ((db.synthesizeIndices id).1.modifyTable id Table.withoutSizes,
        (db.synthesizeIndices id).2) := by
  cases ht : db.table? id with
  | none =>
    rw [modifyTable_of_unknown ht, synthesizeIndices_of_unknown ht, modifyTable_of_unknown ht]
  | some t =>
    have houtline : (db.modifyTable id Table.withoutSizes).outline = db.outline := by
      rw [modifyTable_eq_mapTables]
      refine outline_mapTables fun i u _ => ?_
      split <;> rfl
    obtain ⟨htable, hcreated⟩ := t.completed_withoutSizes houtline
    rw [synthesizeIndices_of_table? (table?_modifyTable_self ht _), htable, hcreated,
      synthesizeIndices_of_table? ht]
    refine Prod.ext ?_ rfl
    simp only [modifyTable_eq_mapTables, mapTables_mapTables]
    refine mapTables_congr fun i u _ => ?_
    by_cases hi : i = id
    · simp only [if_pos hi]
    · simp only [if_neg hi]

/-- **What serves a requirement.** A requirement that gets an index is served in full, by that index.
Any other one is served in full too, unless it is left to an index or unique constraint that was
there already, begins with its columns and stores only the beginning of one of them, or its columns
are mistaken for others with the same text. Without commas in names and without such an index for
its columns every requirement is served in full. Sizes make no difference to what is added. -/
theorem synthesizeIndices_servesInFull (ht : db.table? id = some t)
    (h : db.synthesizeIndices id = (db', created)) (ht' : db'.table? id = some t') :
    (∀ entry ∈ created, ∀ columns, columns <+: entry.columns → t'.ServesInFull columns) ∧
    (∀ r ∈ db.requirements t, t'.ServesInFull r.columns ∨
      (∃ index ∈ t.indices ++ t.uniques, index ∈ t'.indices ++ t'.uniques ∧
        index.LeadsPartly r.columns) ∨
      ∃ construct ∈ t'.constructs, ∃ columns, columns <+: construct.2 ∧ columns ≠ [] ∧
        columns ≠ r.columns ∧
          CoverageMap.columnKey columns = CoverageMap.columnKey r.columns) ∧
    (t.CommaFree → ∀ r ∈ db.requirements t,
      (∀ index ∈ t.indices ++ t.uniques, ¬ index.LeadsPartly r.columns) →
        t'.ServesInFull r.columns) ∧
    (db.modifyTable id Table.withoutSizes).synthesizeIndices id =
      (db'.modifyTable id Table.withoutSizes, created) := by
  have hsizes := db.synthesizeIndices_withoutSizes id
  rw [h] at hsizes
  rw [synthesizeIndices_of_table? ht, Prod.mk.injEq] at h
  obtain ⟨rfl, rfl⟩ := h
  rw [table?_modifyTable_self ht, Option.some.injEq] at ht'
  subst ht'
  refine ⟨fun entry hentry columns hleads => Table.servesInFull_of_mem_createdIn hentry hleads,
    fun r hr => Table.served_cases hr, fun hfree r hr hnone => ?_, hsizes⟩
  rcases Table.served_cases hr with hserved | ⟨index, hold, -, hpartly⟩ |
    ⟨construct, hconstruct, columns, hleads, hne, hother, hsame⟩
  · exact hserved
  · exact absurd hpartly (hnone index hold)
  · obtain ⟨-, hnonempty, hthere⟩ := mem_requirements_iff.1 hr
    refine absurd (CoverageMap.columnKey_injective hne hnonempty ?_ ?_ hsame) hother
    · exact fun column hcolumn =>
        hfree.constructs_completedIn hconstruct column (hleads.subset hcolumn)
    · exact fun column hcolumn => hfree.1 column (hthere column hcolumn)

/-- Books refer to their author by address; an index stores the first ten letters of that. -/
def addressedBook : Table where
  name := "book"
  columns := Columns.empty.push
    { name := "author_email", columnType := .varchar } (Columns.not_contains_empty "author_email")
  foreignKeys :=
    [{ name := "book_FK_1", foreignTable := "author", references := [⟨"author_email", "email"⟩] }]
  indices := [{ name := "book_I_1", columns := [⟨"author_email", some 10⟩] }]

def addressedBooks : Database where
  name := "library"
  platform := .mysql
  tables := [addressedBook]

/-- The index over the beginning of the address passes for one over the address: no other is added,
and nothing serves the key's column in full. -/
theorem synthesizeIndices_sizedIndex : addressedBooks.platform.needsKeyIndices = true ∧
    (⟨"book_FK_1", ["author_email"], .foreignKey⟩ : Requirement) ∈
      addressedBooks.requirements addressedBook ∧
    addressedBooks.table? ⟨0⟩ = some addressedBook ∧
    addressedBooks.synthesizeIndices ⟨0⟩ = (addressedBooks, []) ∧
    ¬ addressedBook.ServesInFull ["author_email"] := by
  decide +kernel

/-- Three keys: one meets an index over the beginning of its column, one an index over its column
in full and the beginning of another, and one meets none. -/
def shelvedBook : Table where
  name := "book"
  columns := ((Columns.empty.push
    { name := "author_email", columnType := .varchar }
      (Columns.not_contains_empty "author_email")).push
    { name := "shelf", columnType := .integer } (by decide +kernel)).push
    { name := "series", columnType := .varchar } (by decide +kernel)
  foreignKeys :=
    [{ name := "book_FK_1", foreignTable := "author", references := [⟨"author_email", "email"⟩] },
     { name := "book_FK_2", foreignTable := "shelf", references := [⟨"shelf", "id"⟩] },
     { name := "book_FK_3", foreignTable := "series", references := [⟨"series", "title"⟩] }]
  indices :=
    [{ name := "book_I_1", columns := [⟨"author_email", some 10⟩] },
     { name := "book_I_2", columns := [⟨"shelf", none⟩, ⟨"series", some 8⟩] }]

def shelvedBooks : Database where
  name := "library"
  platform := .mysql
  tables := [shelvedBook]

/-- The last key gets an index, the second one is served by the index that it meets, and the first
one is left to the index over the beginning of its column. -/
theorem synthesizeIndices_servesInFull_shelvedBooks : ∃ db' created t',
    shelvedBooks.table? ⟨0⟩ = some shelvedBook ∧
    shelvedBooks.synthesizeIndices ⟨0⟩ = (db', created) ∧ db'.table? ⟨0⟩ = some t' ∧
    created.map (·.columns) = [["series"]] ∧ t'.ServesInFull ["series"] ∧
    t'.ServesInFull ["shelf"] ∧ ¬ t'.ServesInFull ["author_email"] ∧
    (∃ index ∈ shelvedBook.indices ++ shelvedBook.uniques, index.LeadsPartly ["author_email"]) ∧
    (shelvedBooks.modifyTable ⟨0⟩ Table.withoutSizes).synthesizeIndices ⟨0⟩ =
      (db'.modifyTable ⟨0⟩ Table.withoutSizes, created) := by
  have ht : shelvedBooks.table? ⟨0⟩ = some shelvedBook := rfl
  have h := synthesizeIndices_of_table? ht
  have ht' := table?_modifyTable_self ht fun _ => shelvedBook.completedIn shelvedBooks
  obtain ⟨hadded, -, hfree, hsizes⟩ := synthesizeIndices_servesInFull ht h ht'
  have hcommas : shelvedBook.CommaFree := by decide +kernel
  refine ⟨_, _, _, ht, h, ht', by decide +kernel, ?_, ?_, by decide +kernel, by decide +kernel,
    hsizes⟩
  · exact hadded ⟨"book", "book_FI_3", ["series"], .foreignKey⟩ (by decide +kernel) _
      List.prefix_rfl
  · exact hfree hcommas ⟨"book_FK_2", ["shelf"], .foreignKey⟩ (by decide +kernel)
      (by decide +kernel)

end Database

end RelSchema
