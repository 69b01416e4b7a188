import RelSchema.Proofs.SettledTables

/-!
# Foreign keys are covered on both sides

On a platform that needs indices behind foreign keys, a database that was linked has them: the local
columns of each key lead a construct of its own table, and the referenced columns lead one of the
target. The runs that completed the tables may have replaced each other's indices; what counts is
that every table is complete in the end.
-/

namespace RelSchema

namespace Database

/-- Whether both column lists of a key that this table declares are covered, as far as the tables
have the columns. -/
structure KeyCovered (db : Database) (t : Table) (key : ForeignKey) : Prop where
  localColumns : (∀ column ∈ key.localColumns, t.hasColumn column = true) →
    (CoverageMap.ofTable t).isCovered key.localColumns = true
  foreignColumns : ∀ target, db.tableByName? key.foreignTable = some target →
    (∀ column ∈ key.foreignColumns, target.hasColumn column = true) →
      (CoverageMap.ofTable target).isCovered key.foreignColumns = true

/-- Whether all keys that name columns are covered. -/
def KeysCovered (db : Database) : Prop :=
  ∀ t ∈ db.tables, ∀ key ∈ t.foreignKeys, key.references ≠ [] → db.KeyCovered t key

variable {db : Database} {t : Table} {k : DeclaredKey}

theorem Settled.isCovered_localColumns (h : db.Settled)
    (hneeds : db.platform.needsKeyIndices = true) (ht : db.table? k.id.table = some t)
    (hk : k ∈ db.allKeys) (hne : k.key.localColumns ≠ [])
    (hcolumns : ∀ column ∈ k.key.localColumns, t.hasColumn column = true) :
    (CoverageMap.ofTable t).isCovered k.key.localColumns = true := by
  have hcomplete : t.CompleteIn db := (h _ t ht k hk).complete hneeds (Or.inl rfl)
  have hmem : k.key ∈ t.foreignKeys := by
    obtain ⟨t', ht', -, hkey⟩ := mem_allKeys_iff.1 hk
    cases ht.symm.trans ht'
    exact List.mem_of_getElem? hkey
  exact hcomplete ⟨k.key.name, k.key.localColumns, .foreignKey⟩ (mem_requirements_iff.2
    ⟨Or.inr ⟨k.key, hmem, rfl⟩, hne, fun column hc => Table.hasColumn_iff.1 (hcolumns column hc)⟩)

theorem Settled.isCovered_foreignColumns (h : db.Settled)
    (hneeds : db.platform.needsKeyIndices = true) {id : TableId}
    (htarget : db.tableId? k.key.foreignTable = some id) (ht : db.table? id = some t)
    (hk : k ∈ db.allKeys) (hne : k.key.foreignColumns ≠ [])
    (hcolumns : ∀ column ∈ k.key.foreignColumns, t.hasColumn column = true) :
    (CoverageMap.ofTable t).isCovered k.key.foreignColumns = true := by
  have hcomplete : t.CompleteIn db := (h id t ht k hk).complete hneeds (Or.inr htarget)
  have hmem : k.id ∈ t.referrers := h.mem_referrers hk htarget ht
  exact hcomplete ⟨k.key.name, k.key.foreignColumns, .referenced⟩ (mem_requirements_iff.2
    ⟨Or.inl ⟨k.id, hmem, k.key, foreignKey?_of_mem_allKeys hk, rfl⟩, hne,
      fun column hc => Table.hasColumn_iff.1 (hcolumns column hc)⟩)

theorem Settled.keysCovered (h : db.Settled) (hneeds : db.platform.needsKeyIndices = true) :
    db.KeysCovered := by
  intro t ht key hkey hne
  obtain ⟨id, hid⟩ := exists_table?_of_mem ht
  obtain ⟨k, hk, rfl, rfl⟩ := exists_mem_allKeys hid hkey
  constructor
  case localColumns =>
    have hlocal : k.key.localColumns ≠ [] := by simpa [ForeignKey.localColumns] using hne
    exact h.isCovered_localColumns hneeds hid hk hlocal
  case foreignColumns =>
    intro target htarget
    obtain ⟨id, hid, ht⟩ := Option.bind_eq_some_iff.1 htarget
    have hforeign : k.key.foreignColumns ≠ [] := by simpa [ForeignKey.foreignColumns] using hne
    exact h.isCovered_foreignColumns hneeds hid ht hk hforeign

end Database

namespace Resolver

/-- **Coverage.** When a platform needs indices behind foreign keys, a run of linking that is not
refused leaves every key covered on both sides, whatever the database was like before and whichever
indices were replaced on the way. -/
theorem keysCovered_link {r : Resolver} {s : Resolution}
    (hneeds : s.db.platform.needsKeyIndices = true) (h : (r.link s).error = none) :
    (r.link s).state.db.KeysCovered := by
  rw [db_link h]
  exact s.db.settled_linked.keysCovered hneeds

/-- Books that refer to their author, with an older index under the name that the key generates. -/
def bookshop : Database where
  name := "bookshop"
  platform := .mysql
  tables :=
    [{ name := "author"
       columns := Columns.empty.push
         { name := "id", columnType := .integer, primaryKey := true }
           (Columns.not_contains_empty "id") },
     { name := "book"
       columns := (Columns.empty.push
         { name := "title", columnType := .varchar } (Columns.not_contains_empty "title")).push
         { name := "author_id", columnType := .integer } (by decide +kernel)
       foreignKeys :=
         [{ name := "FK_author"
            foreignTable := "author"
            references := [⟨"author_id", "id"⟩] }]
       indices := [{ name := "FI_author", columns := [{ name := "title" }] }] }]

/-- In the bookshop the older index gives way to one over the key's column. -/
theorem keysCovered_link_bookshop :
    bookshop.platform.needsKeyIndices = true ∧
      (({} : Resolver).link ⟨bookshop, { timestamp := "" }⟩).error = none ∧
      (({} : Resolver).link ⟨bookshop, { timestamp := "" }⟩).state.db.KeysCovered :=
  ⟨by decide, by decide +kernel, keysCovered_link (by decide) (by decide +kernel)⟩

end Resolver

end RelSchema
