import RelSchema.Proofs.ConstraintNaming

/-!
# Names of indices

Adding the indices behind foreign keys keeps the names of a table's indices distinct: an older index
with the name gives way, and a name that was used in the same run is numbered until no index has it
(`Worklist.GrownFrom.run`). Unique constraints are not looked at. So after a resolve the indices of
a table have distinct names, and so have its unique constraints, and an index shares its name with a
unique constraint only if the index was added for a foreign key (`Resolver.indexNames_resolve`).
-/

namespace RelSchema

/-- The names that a foreign key gives to the indices behind its two sides. -/
inductive BaseIndexName (key : String) : String → Prop where
  | own : BaseIndexName key (foreignKeyIndexName key)
  | referenced (ordinal : Nat) : BaseIndexName key (referencedIndexName key ordinal)

/-- The names that indices added for a foreign key can have. -/
inductive SynthesizedName (key : String) : String → Prop where
  | base {name : String} : BaseIndexName key name → SynthesizedName key name
  | numbered {name : String} (number : Nat) :
      BaseIndexName key name → SynthesizedName key (name ++ "_" ++ toString number)

/-! ## Free names -/

namespace Table

/-- The names of the indices of a table, in order. -/
def indexNames (t : Table) : List String := t.indices.map (·.name)

theorem hasIndex_iff {t : Table} {name : String} :
    t.hasIndex name = true ↔ name ∈ t.indexNames := by
  simp [hasIndex, indexNames]

end Table

theorem numbered_injective (base : String) :
    Function.Injective fun n : Nat => base ++ "_" ++ toString (n + 2) := by
  intro n m h
  have hlist := congrArg String.toList h
  simp only [String.toList_append] at hlist
  have hnumber := Text.toString_nat_injective (String.toList_inj.1 (List.append_cancel_left hlist))
  omega

/-- More names are tried than the table has indices, so the search ends at a free one. -/
theorem freeIndexName_spec (t : Table) (base : String) : freeIndexName t base ∉ t.indexNames ∧
    ∃ number : Nat, freeIndexName t base = base ++ "_" ++ toString number := by
  unfold freeIndexName
  cases hfound : List.find? (fun name => !t.hasIndex name)
    ((List.range (t.indices.length + 1)).map fun n => base ++ "_" ++ toString (n + 2)) with
  | none =>
    have hall : (List.range (t.indices.length + 1)).map
        (fun n => base ++ "_" ++ toString (n + 2)) ⊆ t.indexNames := by
      intro name hname
      have hhas := List.find?_eq_none.1 hfound name hname
      simp only [Bool.not_eq_true', Bool.not_eq_false] at hhas
      exact Table.hasIndex_iff.1 hhas
    have hlength :=
      ((List.nodup_range).map (numbered_injective base)).length_le_of_subset hall
    simp only [List.length_map, List.length_range, Table.indexNames] at hlength
    omega
  | some name =>
    have hfree := List.find?_some hfound
    simp only [Bool.not_eq_true'] at hfree
    obtain ⟨n, -, hname⟩ := List.mem_map.1 (List.mem_of_find?_eq_some hfound)
    refine ⟨fun hmem => ?_, n + 2, hname.symm⟩
    rw [Option.getD_some, ← Table.hasIndex_iff, hfree] at hmem
    cases hmem

/-! ## The index of a requirement -/

namespace Worklist

variable {w : Worklist} {r : Requirement} {name : String}

theorem baseIndexName_baseName (w : Worklist) (r : Requirement) :
    BaseIndexName r.foreignKey (w.baseName r) := by
  unfold baseName
  split
  · exact .referenced _
  · exact .own

/-- The name of the index for a requirement: the base name, or a free one if this run has used it
already. -/
def indexName (w : Worklist) (r : Requirement) : String :=
  if w.hasCreated (w.baseName r) then freeIndexName w.table (w.baseName r) else w.baseName r

theorem indexName_ne_empty (w : Worklist) (r : Requirement) : w.indexName r ≠ "" := by
  unfold indexName
  split
  · exact freeIndexName_ne_empty (baseName_ne_empty w r)
  · exact baseName_ne_empty w r

theorem synthesizedName_indexName (w : Worklist) (r : Requirement) :
    SynthesizedName r.foreignKey (w.indexName r) := by
  unfold indexName
  split
  · obtain ⟨-, number, hnumber⟩ := freeIndexName_spec w.table (w.baseName r)
    exact hnumber ▸ .numbered number (w.baseIndexName_baseName r)
  · exact .base (w.baseIndexName_baseName r)

/-- A name that the run has used is never used again: the base name is looked up among the used
names, and a free name among all indices. -/
theorem unused_indexName (h : ∀ entry ∈ w.created, entry.name ∈ w.table.indexNames)
    (r : Requirement) : ∀ entry ∈ w.created, entry.name ≠ w.indexName r := by
  intro entry hentry hname
  unfold indexName at hname
  split at hname
  · exact (freeIndexName_spec w.table (w.baseName r)).1 (hname ▸ h entry hentry)
  · rename_i hbase
    exact hbase (List.any_eq_true.2 ⟨entry, hentry, by simp [hname]⟩)

theorem dropStale_of_not_mem (h : name ∉ w.table.indexNames) : w.dropStale name = w := by
  unfold dropStale
  split
  · rfl
  · rename_i index table hremove
    obtain ⟨-, old, hold, hname⟩ := removeIndex_ok hremove
    exact absurd (hname ▸ List.mem_map_of_mem hold) h

/-- An uncovered requirement gets an index in place of the first one with the same name. A name that
is free has none, so it makes no difference that the base name is the only one looked for. -/
theorem step_of_uncovered (h : ¬ w.coverage.isCovered r.columns = true) :
    w.step r = ({ w with ordinal := w.nextOrdinal r }.dropStale (w.indexName r)).create
      (w.indexName r) r := by
  rcases step_cases w r with ⟨hcov, -⟩ | ⟨hcreated, heq⟩ | ⟨hcreated, heq⟩
  · exact absurd hcov h
  · have hfree := (freeIndexName_spec w.table (w.baseName r)).1
    rw [heq, indexName, if_pos hcreated,
      dropStale_of_not_mem (w := { w with ordinal := w.nextOrdinal r }) hfree]
  · rw [heq, indexName, if_neg (Bool.eq_false_iff.1 hcreated)]

theorem step_of_covered (h : w.coverage.isCovered r.columns = true) :
    w.step r = { w with satisfied := w.satisfied ++ [r] } := if_pos h

end Worklist

/-! ## Runs over a worklist -/

namespace Worklist

/-- What a run knows of the indices of its table, compared with the table it started from: names
stay distinct, new ones come from the requirements, and no more indices than `missing` were taken
out without another in their place. -/
structure GrownFrom (start : Table) (needs : List Requirement) (missing : Nat) (w : Worklist) :
    Prop where
  nodup : start.indexNames.Nodup → w.table.indexNames.Nodup
  introduced : ∀ index ∈ w.table.indices, index ∈ start.indices ∨
    ∃ r ∈ needs, SynthesizedName r.foreignKey index.name
  length_le : start.indices.length ≤ w.table.indices.length + missing
  requirements : ∀ r, r ∈ w.pending ∨ r ∈ w.satisfied → r ∈ needs

variable {start : Table} {needs : List Requirement} {missing : Nat} {w : Worklist} {r : Requirement}

theorem indices_dropStale (w : Worklist) (name : String) :
    (w.dropStale name).table.indices = w.table.indices.eraseP (·.name == name) := by
  unfold dropStale
  split
  · rename_i e hremove
    unfold Table.removeIndex at hremove
    split at hremove
    · rename_i hnone
      exact (List.eraseP_of_forall_not (List.find?_eq_none.1 hnone)).symm
    · cases hremove
  · rename_i index table hremove
    rw [(removeIndex_ok hremove).1]

theorem indexNames_dropStale (w : Worklist) (name : String) :
    (w.dropStale name).table.indexNames = w.table.indexNames.erase name := by
  rw [Table.indexNames, indices_dropStale, Table.indexNames, List.erase_eq_eraseP', List.eraseP_map]
  rfl

/-- Whatever is taken up again was satisfied before. -/
theorem mem_dropStale (w : Worklist) (name : String)
    (h : r ∈ (w.dropStale name).pending ∨ r ∈ (w.dropStale name).satisfied) :
    r ∈ w.pending ∨ r ∈ w.satisfied := by
  rcases dropStale_eq w name with heq | heq
  · rwa [heq] at h
  · rw [heq] at h
    rcases h with h | h
    · rcases List.mem_append.1 h with h | h
      · exact Or.inr (List.mem_filter.1 h).1
      · exact Or.inl h
    · exact Or.inr (List.mem_filter.1 h).1

theorem GrownFrom.dropStale (h : w.GrownFrom start needs 0) (name : String) :
    (w.dropStale name).GrownFrom start needs 1 where
  nodup hstart := by
    rw [indexNames_dropStale]
    exact (h.nodup hstart).erase name
  introduced index hindex := by
    rw [indices_dropStale] at hindex
    exact h.introduced index (List.mem_of_mem_eraseP hindex)
  length_le := by
    have hlength := h.length_le
    rw [indices_dropStale, List.length_eraseP]
    split <;> omega
  requirements r hr := h.requirements r (w.mem_dropStale name hr)

theorem GrownFrom.requirements_append (h : w.GrownFrom start needs missing) (hr : r ∈ needs) :
    ∀ q, q ∈ w.pending ∨ q ∈ w.satisfied ++ [r] → q ∈ needs := by
  intro q hq
  rcases hq with hq | hq
  · exact h.requirements q (Or.inl hq)
  · rcases List.mem_append.1 hq with hq | hq
    · exact h.requirements q (Or.inr hq)
    · rwa [List.mem_singleton.1 hq]

theorem GrownFrom.tick (h : w.GrownFrom start needs missing) (hr : r ∈ needs) :
    GrownFrom start needs missing { w with satisfied := w.satisfied ++ [r] } :=
  ⟨h.nodup, h.introduced, h.length_le, h.requirements_append hr⟩

theorem GrownFrom.create (h : w.GrownFrom start needs 1) (hr : r ∈ needs) {name : String}
    (hfree : start.indexNames.Nodup → name ∉ w.table.indexNames)
    (hname : SynthesizedName r.foreignKey name) : (w.create name r).GrownFrom start needs 0 where
  nodup hstart := by
    have hnames : (w.create name r).table.indexNames = w.table.indexNames ++ [name] :=
      List.map_append ..
    rw [hnames, ← List.concat_eq_append]
    exact (List.nodup_concat ..).2 ⟨hfree hstart, h.nodup hstart⟩
  introduced index hindex := by
    rcases List.mem_append.1 hindex with hold | hnew
    · exact h.introduced index hold
    · rw [List.mem_singleton.1 hnew]
      exact Or.inr ⟨r, hr, hname⟩
  length_le := by
    have hlength : (w.create name r).table.indices.length = w.table.indices.length + 1 :=
      List.length_append ..
    have := h.length_le
    omega
  requirements := h.requirements_append hr

theorem GrownFrom.take {rest : List Requirement} (h : w.GrownFrom start needs missing)
    (hp : w.pending = r :: rest) :
    r ∈ needs ∧ GrownFrom start needs missing { w with pending := rest } := by
  refine ⟨h.requirements r (Or.inl (hp ▸ List.mem_cons_self)), h.nodup, h.introduced, h.length_le,
    fun q hq => h.requirements q (hq.imp_left fun hq => ?_)⟩
  rw [hp]
  exact List.mem_cons_of_mem r hq

/-- Each step keeps the names distinct: the name of a new index has just become free. -/
theorem GrownFrom.step (h : w.GrownFrom start needs 0) (hr : r ∈ needs) :
    (w.step r).GrownFrom start needs 0 := by
  by_cases hcov : w.coverage.isCovered r.columns = true
  · rw [step_of_covered hcov]
    exact h.tick hr
  · have hcounted : GrownFrom start needs 0 { w with ordinal := w.nextOrdinal r } :=
      ⟨h.nodup, h.introduced, h.length_le, h.requirements⟩
    rw [step_of_uncovered hcov]
    refine (hcounted.dropStale (w.indexName r)).create hr (fun hstart => ?_)
      (w.synthesizedName_indexName r)
    rw [indexNames_dropStale]
    exact (h.nodup hstart).not_mem_erase

theorem GrownFrom.run (h : w.GrownFrom start needs 0) : w.run.GrownFrom start needs 0 :=
  (run_induction (P := GrownFrom start needs 0)
    (fun _ _ _ hp hv => (hv.take hp).2.step (hv.take hp).1) h).1

end Worklist

/-! ## Linking -/

/-- The foreign keys of all tables. -/
def Database.foreignKeys (db : Database) : List ForeignKey := db.tables.flatMap (·.foreignKeys)

theorem Database.foreignKeys_congr {db db' : Database} (h : db.outline = db'.outline) :
    db.foreignKeys = db'.foreignKeys := by
  have houtline : ∀ db : Database, db.foreignKeys = db.outline.flatMap (·.2.1) := by
    intro db
    rw [outline, List.flatMap_map]
    rfl
  rw [houtline, houtline, h]

namespace Table

/-- How the indices of a table change when indices are added for these foreign keys: their names
stay distinct, new names come from the keys, and there are no fewer than before. -/
structure IndexGrowth (keys : List ForeignKey) (t t' : Table) : Prop where
  nodup : t.indexNames.Nodup → t'.indexNames.Nodup
  introduced : ∀ index ∈ t'.indices, index ∈ t.indices ∨
    ∃ key ∈ keys, SynthesizedName key.name index.name
  length_le : t.indices.length ≤ t'.indices.length

variable {keys : List ForeignKey} {t u v : Table} {db : Database}

theorem IndexGrowth.of_indices_eq (h : u.indices = t.indices) : t.IndexGrowth keys u where
  nodup hnodup := by
    rw [indexNames, h]
    exact hnodup
  introduced _ hindex := Or.inl (h ▸ hindex)
  length_le := Nat.le_of_eq (congrArg List.length h.symm)

theorem IndexGrowth.trans (h : t.IndexGrowth keys u) (h' : u.IndexGrowth keys v) :
    t.IndexGrowth keys v where
  nodup hnodup := h'.nodup (h.nodup hnodup)
  introduced index hindex := by
    rcases h'.introduced index hindex with hold | hnew
    · exact h.introduced index hold
    · exact Or.inr hnew
  length_le := Nat.le_trans h.length_le h'.length_le

theorem indexGrowth_completedIn (hown : ∀ key ∈ t.foreignKeys, key ∈ db.foreignKeys) :
    t.IndexGrowth db.foreignKeys (t.completedIn db) := by
  have hstart : (db.worklist t).GrownFrom t (db.requirements t) 0 :=
    ⟨id, fun _ hindex => Or.inl hindex, Nat.le_refl _, fun r hr => hr.resolve_right (by rintro ⟨⟩)⟩
  refine ⟨hstart.run.nodup, fun index hindex => ?_, hstart.run.length_le⟩
  rcases hstart.run.introduced index hindex with hold | ⟨r, hr, hname⟩
  · exact Or.inl hold
  · right
    obtain ⟨⟨id, -, key, hkey, rfl⟩ | ⟨key, hkey, rfl⟩, -⟩ := Database.mem_requirements_iff.1 hr
    · obtain ⟨u, hu, hposition⟩ := Option.bind_eq_some_iff.1 hkey
      have hmem : key ∈ db.foreignKeys := List.mem_flatMap.2
        ⟨u, List.mem_of_getElem? hu, List.mem_of_getElem? hposition⟩
      exact ⟨key, hmem, hname⟩
    · exact ⟨key, hown key hkey, hname⟩

theorem foreignKeys_eq_of_declaration_eq (h : t.declaration = u.declaration) :
    t.foreignKeys = u.foreignKeys := congrArg (·.2.foreignKeys) h

theorem indexGrowth_linkKey (id : TableId) (k : DeclaredKey)
    (hown : ∀ key ∈ t.foreignKeys, key ∈ db.foreignKeys) :
    t.IndexGrowth db.foreignKeys (t.linkKey db id k) := by
  have hends : t.IndexGrowth db.foreignKeys (k.key.ends.foldl (linkEnd db id k) t) :=
    .of_indices_eq (indices_linkEnds db id k t _)
  have hkeys : (k.key.ends.foldl (linkEnd db id k) t).foreignKeys = t.foreignKeys :=
    foreignKeys_eq_of_declaration_eq (declaration_linkEnds db id k t _)
  unfold linkKey
  split
  · exact hends.trans (indexGrowth_completedIn (hkeys ▸ hown))
  · exact hends

theorem indexGrowth_linkAll (id : TableId) (keys : List DeclaredKey)
    (hown : ∀ key ∈ t.foreignKeys, key ∈ db.foreignKeys) :
    t.IndexGrowth db.foreignKeys (t.linkAll db id keys) := by
  induction keys generalizing t with
  | nil => exact .of_indices_eq rfl
  | cons k rest ih =>
    have hkeys : (t.linkKey db id k).foreignKeys = t.foreignKeys :=
      foreignKeys_eq_of_declaration_eq (declaration_linkKey db id t k)
    exact (indexGrowth_linkKey id k hown).trans (ih (hkeys ▸ hown))

/-- Where the platform needs no indices behind foreign keys, linking adds none. -/
theorem indices_linkAll_of_not_needs (hneeds : ¬ db.platform.needsKeyIndices = true) (id : TableId)
    (keys : List DeclaredKey) (t : Table) : (t.linkAll db id keys).indices = t.indices := by
  induction keys generalizing t with
  | nil => rfl
  | cons k rest ih =>
    refine (ih (t.linkKey db id k)).trans ?_
    rw [linkKey, if_neg fun h => hneeds h.1, indices_linkEnds]

theorem constraintNames_of_named (h : t.ConstraintsNamed) : t.constraintNames =
    t.foreignKeys.map (·.name) ++ t.indexNames ++ t.uniques.map (·.name) := by
  refine List.filter_eq_self.2 fun name hname => ?_
  have hne : name ≠ "" := by
    rw [List.mem_append, List.mem_append] at hname
    rcases hname with (hname | hname) | hname
    · obtain ⟨key, hkey, rfl⟩ := List.mem_map.1 hname
      exact h.foreignKeys key hkey
    · obtain ⟨index, hindex, rfl⟩ := List.mem_map.1 hname
      exact h.indices index hindex
    · obtain ⟨index, hindex, rfl⟩ := List.mem_map.1 hname
      exact h.uniques index hindex
  simpa [String.isEmpty_iff] using hne

end Table

/-! ## Names after a resolve -/

/-- What linking leaves of a table, on this platform and with these foreign keys in the database:
its keys and unique constraints, and its indices up to the ones that the keys need. -/
structure Table.LinkGrowth (platform : Platform) (keys : List ForeignKey) (t t' : Table) :
    Prop where
  foreignKeys : t'.foreignKeys = t.foreignKeys
  uniques : t'.uniques = t.uniques
  growth : t.IndexGrowth keys t'
  indices : ¬ platform.needsKeyIndices = true → t'.indices = t.indices

theorem Table.linkGrowth_linkAll {db : Database} {t : Table} (h : t ∈ db.tables) (id : TableId)
    (keys : List DeclaredKey) :
    t.LinkGrowth db.platform db.foreignKeys (t.linkAll db id keys) where
  foreignKeys := foreignKeys_eq_of_declaration_eq (declaration_linkAll db id keys t)
  uniques := congrArg (·.2.uniques) (declaration_linkAll db id keys t)
  growth := indexGrowth_linkAll id keys fun _ hkey => List.mem_flatMap.2 ⟨t, h, hkey⟩
  indices hneeds := indices_linkAll_of_not_needs hneeds id keys t

/-- An index that was not there before was added for a foreign key of the database. -/
theorem Table.LinkGrowth.synthesized {platform : Platform} {db : Database} {t t' : Table}
    (h : t.LinkGrowth platform db.foreignKeys t') {index : Index} (hindex : index ∈ t'.indices)
    (hnew : index ∉ t.indices) : platform.needsKeyIndices = true ∧
      ∃ u ∈ db.tables, ∃ key ∈ u.foreignKeys, SynthesizedName key.name index.name := by
  constructor
  · by_cases hneeds : platform.needsKeyIndices = true
    · exact hneeds
    · exact absurd (h.indices hneeds ▸ hindex) hnew
  · obtain ⟨key, hkey, hname⟩ := (h.growth.introduced index hindex).resolve_left hnew
    obtain ⟨u, hu, hmem⟩ := List.mem_flatMap.1 hkey
    exact ⟨u, hu, key, hmem, hname⟩

namespace Resolver

variable {check : ReferenceCheck} {db db' : Database} {timestamp : String} {report : Report}

/-- A run that is not refused gives a report. -/
theorem exists_report_of_isSome {result : Database × Except SchemaError Report}
    (h : result.2.toOption.isSome = true) : ∃ report, result = (result.1, .ok report) := by
  obtain ⟨db, report | report⟩ := result
  · cases h
  · exact ⟨report, rfl⟩

/-- A table of a resolved database is finished, and came out of linking a finalized table. -/
theorem exists_finalized_of_resolve
    (h : (standard check).resolve timestamp db = (db', .ok report)) {t' : Table}
    (ht' : t' ∈ db'.tables) : ∃ t ∈ db.tables, BehaviorRegistry.Known t ∧ t'.Finished ∧
      (t.finalized db.platform.maxIdentifierLength).LinkGrowth db.platform db'.foreignKeys t' := by
  obtain ⟨hfinalize, hlink, hstate⟩ := resolve_eq_ok_iff.1 h
  -- the database between the two phases
  obtain ⟨middle, hmiddle⟩ :
      ∃ middle, ((standard check).finalize ⟨db, { timestamp }⟩).state.db = middle := ⟨_, rfl⟩
  have hfinished : middle.Finished := hmiddle ▸ finished_finalize hfinalize
  obtain rfl : db' = middle.linked := by
    rw [← hmiddle, ← db_link hlink, hstate]
  obtain rfl : middle = db.mapTables fun _ t => t.finalized db.platform.maxIdentifierLength :=
    hmiddle.symm.trans (db_finalize_standard hfinalize)
  obtain ⟨id, u, hu, rfl⟩ := Database.mem_tables_mapTables ht'
  have hmem := List.mem_of_getElem? hu
  obtain ⟨i, t, ht, rfl⟩ := Database.mem_tables_mapTables hmem
  have hkeys := Database.foreignKeys_congr (Database.outline_linked
    (db.mapTables fun _ t => t.finalized db.platform.maxIdentifierLength))
  refine ⟨t, List.mem_of_getElem? ht,
    error_finalize_standard_iff.1 hfinalize t (List.mem_of_getElem? ht),
    hfinished.linked _ ht', ?_⟩
  rw [hkeys]
  exact Table.linkGrowth_linkAll hmem id _

/-- **Names of indices and unique constraints after a resolve**, if the given names of each table
are distinct: all have names, distinct among the indices and among the unique constraints. An index
and a unique constraint share a name only if the index was added for a foreign key. -/
theorem indexNames_resolve (h : (standard check).resolve timestamp db = (db', .ok report))
    (hgiven : ∀ t ∈ db.tables, t.constraintNames.Nodup) : ∀ t ∈ db'.tables,
      (∀ index ∈ t.indices ++ t.uniques, index.name ≠ "") ∧
      (t.indices.map (·.name)).Nodup ∧ (t.uniques.map (·.name)).Nodup ∧
      ∀ index ∈ t.indices, ∀ unique ∈ t.uniques, index.name = unique.name →
        db.platform.needsKeyIndices = true ∧
          ∃ u ∈ db'.tables, ∃ key ∈ u.foreignKeys, SynthesizedName key.name index.name := by
  intro t' ht'
  obtain ⟨t, ht, hknown, hfinished, hlinked⟩ := exists_finalized_of_resolve h ht'
  have hnodup := Table.nodup_constraintNames_finalized hknown (hgiven t ht)
    db.platform.maxIdentifierLength
  have hnamed := (Table.finished_finalized hknown db.platform.maxIdentifierLength).named
  rw [Table.constraintNames_of_named hnamed, List.nodup_append, List.nodup_append] at hnodup
  obtain ⟨⟨-, hindices, -⟩, huniques, hapart⟩ := hnodup
  refine ⟨?_, hlinked.growth.nodup hindices, hlinked.uniques ▸ huniques, ?_⟩
  · intro index hindex
    rcases List.mem_append.1 hindex with hindex | hindex
    · exact hfinished.named.indices index hindex
    · exact hfinished.named.uniques index hindex
  · intro index hindex unique hunique hsame
    have hnew : index ∉ (t.finalized db.platform.maxIdentifierLength).indices := by
      intro hold
      have huniqueMem : unique ∈ (t.finalized db.platform.maxIdentifierLength).uniques :=
        hlinked.uniques ▸ hunique
      exact hapart index.name (List.mem_append_right _ (List.mem_map_of_mem hold)) unique.name
        (List.mem_map_of_mem huniqueMem) hsame
    exact hlinked.synthesized hindex hnew

/-- Books with an unnamed foreign key, and a unique constraint under the name of the key's index. -/
def editions : Database :=
  ({ name := "library", platform := .mysql } : Database).withTables
    [{ name := "author"
       columns := Columns.empty.push
         { name := "id", columnType := .integer, primaryKey := true }
           (Columns.not_contains_empty "id") },
     { name := "book"
       columns := (Columns.empty.push
         { name := "author_id", columnType := .integer }
           (Columns.not_contains_empty "author_id")).push
         { name := "isbn", columnType := .varchar } (by decide +kernel)
       foreignKeys := [{ foreignTable := "author", references := [⟨"author_id", "id"⟩] }]
       uniques := [{ name := "book_FI_1", columns := [{ name := "isbn" }], unique := true }] }]

def resolvedEditions : Database × Except SchemaError Report :=
  (standard .tolerant).resolve "" editions

/-- The given names are distinct, and still the index for the key repeats the name of the unique
constraint. -/
theorem indexNames_resolvedEditions : (∀ t ∈ editions.tables, t.constraintNames.Nodup) ∧
    resolvedEditions.2.toOption.isSome = true ∧
    resolvedEditions.1.tables.map (fun t => (t.indices.map (·.name), t.uniques.map (·.name))) =
      [([], []), (["book_FI_1"], ["book_FI_1"])] := by
  decide +kernel

/-- The resolved tables: their names are distinct up to that index. -/
theorem indexNames_resolve_editions : ∃ report,
    (standard .tolerant).resolve "" editions = (resolvedEditions.1, .ok report) ∧
    ∀ t ∈ resolvedEditions.1.tables, (∀ index ∈ t.indices ++ t.uniques, index.name ≠ "") ∧
      (t.indices.map (·.name)).Nodup ∧ (t.uniques.map (·.name)).Nodup ∧
      ∀ index ∈ t.indices, ∀ unique ∈ t.uniques, index.name = unique.name →
        editions.platform.needsKeyIndices = true ∧ ∃ u ∈ resolvedEditions.1.tables,
          ∃ key ∈ u.foreignKeys, SynthesizedName key.name index.name := by
  have hok : resolvedEditions.2.toOption.isSome = true := by decide +kernel
  obtain ⟨report, hresolve⟩ := exists_report_of_isSome hok
  exact ⟨report, hresolve, indexNames_resolve hresolve (by decide +kernel)⟩

end Resolver

end RelSchema
