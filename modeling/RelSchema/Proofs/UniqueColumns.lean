import Mathlib.Data.List.Perm.Subperm
import RelSchema.Proofs.ColumnLookup
import RelSchema.Table.Uniqueness

/-!
# Which lists of columns are unique

A list of columns is compared with the lists that determine a row (`Table.rowKeys`) and with the
indexed ones by its size and its columns, in any order. The comparison with a constraint counts the
given columns and looks each of them up, so it is exact for lists that repeat no column, and for all
lists but those that have a constraint's size through a repetition while they lack one of its columns
(`Index.PaddedBy`). With these apart, what is answered is set equality at equal size
(`Table.isUnique_isIndex_iff`).
-/

namespace RelSchema

/-- Whether two lists have the same size and the same columns, in any order. -/
def SameColumns (xs ys : List String) : Prop := xs.length = ys.length ∧ xs ⊆ ys ∧ ys ⊆ xs

instance (xs ys : List String) : Decidable (SameColumns xs ys) :=
  inferInstanceAs (Decidable (_ ∧ _ ∧ _))

theorem sameColumns_of_perm {xs ys : List String} (h : xs.Perm ys) : SameColumns xs ys :=
  ⟨h.length_eq, h.subset, h.symm.subset⟩

/-- A list without repetitions that has the size of another and lies in it has the same columns. -/
theorem sameColumns_of_nodup {xs ys : List String} (hnodup : xs.Nodup)
    (hlength : ys.length = xs.length) (hsub : xs ⊆ ys) : SameColumns xs ys :=
  sameColumns_of_perm ((hnodup.subperm hsub).perm_of_length_le (Nat.le_of_eq hlength))

theorem SameColumns.symm {xs ys : List String} (h : SameColumns xs ys) : SameColumns ys xs :=
  ⟨h.1.symm, h.2.2, h.2.1⟩

theorem sameColumns_singleton_iff {xs : List String} {column : String} :
    SameColumns xs [column] ↔ xs = [column] := by
  constructor
  · rintro ⟨hlength, hsub, -⟩
    obtain ⟨c, rfl⟩ := List.length_eq_one_iff.1 hlength
    rw [List.mem_singleton.1 (hsub (List.mem_singleton_self c))]
  · rintro rfl
    exact sameColumns_of_perm (List.Perm.refl _)

namespace Index

/-- Whether a list has the size of an index through a repetition: all its columns are columns of the
index, which has still another one. -/
def PaddedBy (index : Index) (columns : List String) : Prop :=
  index.columns.length = columns.length ∧ columns ⊆ index.columnNames ∧
    ¬ index.columnNames ⊆ columns

instance (index : Index) (columns : List String) : Decidable (index.PaddedBy columns) :=
  inferInstanceAs (Decidable (_ ∧ _ ∧ ¬ _))

variable {index : Index} {columns : List String}

theorem hasColumn_iff {column : String} :
    index.hasColumn column = true ↔ column ∈ index.columnNames := by
  simp [hasColumn, columnNames]

theorem length_columnNames (index : Index) : index.columnNames.length = index.columns.length :=
  List.length_map ..

theorem not_paddedBy_of_nodup (h : columns.Nodup) : ¬ index.PaddedBy columns := by
  rintro ⟨hlength, hsub, hother⟩
  rw [← length_columnNames] at hlength
  exact hother (sameColumns_of_nodup h hlength hsub).2.2

/-- Counting the columns and looking each of them up decides equality, padded lists apart. -/
theorem matchesColumns_iff : index.matchesColumns columns = true ↔
    SameColumns columns index.columnNames ∨ index.PaddedBy columns := by
  have hcount : index.matchesColumns columns = true ↔
      index.columns.length = columns.length ∧ columns ⊆ index.columnNames := by
    simp only [matchesColumns, Bool.and_eq_true, beq_iff_eq, List.all_eq_true, hasColumn_iff]
    rfl
  rw [hcount]
  constructor
  · rintro ⟨hlength, hsub⟩
    by_cases hall : index.columnNames ⊆ columns
    · exact Or.inl ⟨by rw [length_columnNames, hlength], hsub, hall⟩
    · exact Or.inr ⟨hlength, hsub, hall⟩
  · rintro (⟨hlength, hsub, -⟩ | ⟨hlength, hsub, -⟩)
    · exact ⟨by rw [hlength, length_columnNames], hsub⟩
    · exact ⟨hlength, hsub⟩

theorem matchesColumns_iff_of_not_paddedBy (h : ¬ index.PaddedBy columns) :
    index.matchesColumns columns = true ↔ SameColumns columns index.columnNames := by
  rw [matchesColumns_iff, or_iff_left h]

end Index

namespace Table

variable {t : Table} {columns : List String} {column : String}

/-- The lists of columns that determine a row: each column that is unique by itself, the primary
key, and the columns of each unique constraint. -/
def rowKeys (t : Table) : List (List String) :=
  (t.columns.list.filter (·.unique)).map (fun c => [c.name]) ++
    t.primaryKeyNames :: t.uniques.map (·.columnNames)

theorem mem_rowKeys_iff {key : List String} : key ∈ t.rowKeys ↔
    (∃ c ∈ t.columns.list, c.unique = true ∧ key = [c.name]) ∨ key = t.primaryKeyNames ∨
      ∃ unique ∈ t.uniques, key = unique.columnNames := by
  simp only [rowKeys, List.mem_append, List.mem_map, List.mem_filter, List.mem_cons, and_assoc,
    eq_comm]

theorem nodup_primaryKeyNames (t : Table) : t.primaryKeyNames.Nodup :=
  t.columns.nodup_names.sublist (List.filter_sublist.map _)

/-- The primary key has no repetitions, so it does not matter which of the two is looked up in the
other. -/
theorem matchesPrimaryKey_iff :
    t.matchesPrimaryKey columns = true ↔ SameColumns columns t.primaryKeyNames := by
  simp only [matchesPrimaryKey, Bool.and_eq_true, beq_iff_eq, List.all_eq_true,
    List.contains_iff_mem]
  constructor
  · rintro ⟨hlength, hsub⟩
    exact (sameColumns_of_nodup t.nodup_primaryKeyNames hlength.symm hsub).symm
  · rintro ⟨hlength, -, hsub⟩
    exact ⟨hlength.symm, hsub⟩

theorem mem_primaryKey_iff {c : Column} :
    c ∈ t.primaryKey ↔ c ∈ t.columns.list ∧ c.primaryKey = true := List.mem_filter

theorem isUniqueColumn_iff : t.isUniqueColumn column = true ↔
    (∃ c ∈ t.columns.list, c.unique = true ∧ column = c.name) ∨ t.primaryKeyNames = [column] := by
  unfold isUniqueColumn
  constructor
  · intro h
    cases hc : t.column? column with
    | none => simp [hc] at h
    | some c =>
      obtain ⟨hmem, rfl⟩ := column?_eq_some_iff.1 hc
      simp only [hc, Bool.or_eq_true, Bool.and_eq_true, beq_iff_eq] at h
      rcases h with hunique | ⟨hprimary, hlength⟩
      · exact Or.inl ⟨c, hmem, hunique, rfl⟩
      · obtain ⟨d, hd⟩ := List.length_eq_one_iff.1 hlength
        have hmem' : c ∈ t.primaryKey := mem_primaryKey_iff.2 ⟨hmem, hprimary⟩
        rw [hd, List.mem_singleton] at hmem'
        exact Or.inr (by rw [primaryKeyNames, hd, hmem', List.map_singleton])
  · rintro (⟨c, hmem, hunique, rfl⟩ | hprimary)
    · rw [column?_eq_some_iff.2 ⟨hmem, rfl⟩]
      simp [hunique]
    · obtain ⟨c, hc, rfl⟩ := List.map_eq_singleton_iff.1 hprimary
      have hmem : c ∈ t.primaryKey := hc ▸ List.mem_singleton_self c
      obtain ⟨hlist, hflag⟩ := mem_primaryKey_iff.1 hmem
      rw [column?_eq_some_iff.2 ⟨hlist, rfl⟩]
      simp [hflag, hc]

/-- What is asked of a list of columns, with the comparison with the constraints left as it is. -/
theorem isUnique_iff : t.isUnique columns = true ↔ columns ≠ [] ∧
    ((∃ c ∈ t.columns.list, c.unique = true ∧ columns = [c.name]) ∨
      SameColumns columns t.primaryKeyNames ∨
      ∃ unique ∈ t.uniques, unique.matchesColumns columns = true) := by
  cases columns with
  | nil => simp [isUnique]
  | cons column others =>
    simp only [isUnique, Bool.or_eq_true, Bool.and_eq_true, List.isEmpty_iff, List.any_eq_true,
      matchesPrimaryKey_iff, isUniqueColumn_iff, ne_eq, reduceCtorEq, not_false_eq_true, true_and,
      List.cons.injEq]
    constructor
    · rintro ((⟨rfl, ⟨c, hc, hunique, rfl⟩ | hprimary⟩ | hprimary) | hmatches)
      · exact Or.inl ⟨c, hc, hunique, rfl, rfl⟩
      · exact Or.inr (Or.inl (sameColumns_of_perm (hprimary ▸ List.Perm.refl _)))
      · exact Or.inr (Or.inl hprimary)
      · exact Or.inr (Or.inr hmatches)
    · rintro (⟨c, hc, hunique, rfl, rfl⟩ | hprimary | hmatches)
      · exact Or.inl (Or.inl ⟨rfl, Or.inl ⟨c, hc, hunique, rfl⟩⟩)
      · exact Or.inl (Or.inr hprimary)
      · exact Or.inr hmatches

theorem isIndex_iff : t.isIndex columns = true ↔
    columns ≠ [] ∧ ∃ index ∈ t.indices, index.matchesColumns columns = true := by
  simp [isIndex]

/-- Where a list is the same as one that determines a row, it is unique. -/
theorem isUnique_of_sameColumns {key : List String} (hne : columns ≠ []) (hkey : key ∈ t.rowKeys)
    (h : SameColumns columns key) : t.isUnique columns = true := by
  refine isUnique_iff.2 ⟨hne, ?_⟩
  rcases mem_rowKeys_iff.1 hkey with ⟨c, hc, hunique, rfl⟩ | rfl | ⟨unique, hunique, rfl⟩
  · exact Or.inl ⟨c, hc, hunique, sameColumns_singleton_iff.1 h⟩
  · exact Or.inr (Or.inl h)
  · exact Or.inr (Or.inr ⟨unique, hunique, Index.matchesColumns_iff.2 (Or.inl h)⟩)

theorem exists_rowKey_of_isUnique (hpadded : ∀ unique ∈ t.uniques, ¬ unique.PaddedBy columns)
    (h : t.isUnique columns = true) : columns ≠ [] ∧ ∃ key ∈ t.rowKeys, SameColumns columns key := by
  obtain ⟨hne, hcases⟩ := isUnique_iff.1 h
  refine ⟨hne, ?_⟩
  rcases hcases with ⟨c, hc, hunique, rfl⟩ | hprimary | ⟨unique, hunique, hmatches⟩
  · exact ⟨[c.name], mem_rowKeys_iff.2 (Or.inl ⟨c, hc, hunique, rfl⟩),
      sameColumns_singleton_iff.2 rfl⟩
  · exact ⟨_, mem_rowKeys_iff.2 (Or.inr (Or.inl rfl)), hprimary⟩
  · exact ⟨_, mem_rowKeys_iff.2 (Or.inr (Or.inr ⟨unique, hunique, rfl⟩)),
      (Index.matchesColumns_iff_of_not_paddedBy (hpadded unique hunique)).1 hmatches⟩

/-- **Unique and indexed lists of columns.** A list that has the size and the columns of one that
determines a row is unique, and one that has those of an index is indexed. The converse holds unless
a unique constraint, or an index, is padded by the list; a list without repetitions pads none. Then
a list is not unique if all that determine a row and contain its columns have another column. -/
theorem isUnique_isIndex_iff (t : Table) (columns : List String) :
    (columns ≠ [] → (∃ key ∈ t.rowKeys, SameColumns columns key) → t.isUnique columns = true) ∧
    ((∀ unique ∈ t.uniques, ¬ unique.PaddedBy columns) →
      (t.isUnique columns = true ↔
        columns ≠ [] ∧ ∃ key ∈ t.rowKeys, SameColumns columns key) ∧
      ((∀ key ∈ t.rowKeys, columns ⊆ key → ¬ key ⊆ columns) → t.isUnique columns = false)) ∧
    (columns ≠ [] → (∃ index ∈ t.indices, SameColumns columns index.columnNames) →
      t.isIndex columns = true) ∧
    ((∀ index ∈ t.indices, ¬ index.PaddedBy columns) → (t.isIndex columns = true ↔
      columns ≠ [] ∧ ∃ index ∈ t.indices, SameColumns columns index.columnNames)) ∧
    (columns.Nodup → ∀ index : Index, ¬ index.PaddedBy columns) := by
  have hunique : columns ≠ [] → (∃ key ∈ t.rowKeys, SameColumns columns key) →
      t.isUnique columns = true := by
    rintro hne ⟨key, hkey, hsame⟩
    exact isUnique_of_sameColumns hne hkey hsame
  have hindex : columns ≠ [] → (∃ index ∈ t.indices, SameColumns columns index.columnNames) →
      t.isIndex columns = true := by
    rintro hne ⟨index, hmem, hsame⟩
    exact isIndex_iff.2 ⟨hne, index, hmem, Index.matchesColumns_iff.2 (Or.inl hsame)⟩
  refine ⟨hunique, fun hpadded => ⟨⟨exists_rowKey_of_isUnique hpadded, fun h => hunique h.1 h.2⟩, ?_⟩,
    hindex, fun hpadded => ⟨?_, fun h => hindex h.1 h.2⟩, fun h index =>
      Index.not_paddedBy_of_nodup h⟩
  · intro hsmaller
    rw [Bool.eq_false_iff]
    intro h
    obtain ⟨-, key, hkey, -, hsub, hsup⟩ := exists_rowKey_of_isUnique hpadded h
    exact hsmaller key hkey hsub hsup
  · intro h
    obtain ⟨hne, index, hmem, hmatches⟩ := isIndex_iff.1 h
    exact ⟨hne, index, hmem,
      (Index.matchesColumns_iff_of_not_paddedBy (hpadded index hmem)).1 hmatches⟩

/-- The authors of books, in a role and a rank, and under a short name of their own. -/
def bookAuthor : Table where
  name := "book_author"
  columns := ((((Columns.empty.push
    { name := "book_id", columnType := .integer, primaryKey := true }
      (Columns.not_contains_empty "book_id")).push
    { name := "author_id", columnType := .integer, primaryKey := true } (by decide +kernel)).push
    { name := "role", columnType := .varchar } (by decide +kernel)).push
    { name := "rank", columnType := .integer } (by decide +kernel)).push
    { name := "slug", columnType := .varchar, unique := true } (by decide +kernel)
  uniques := [{ columns := [{ name := "role" }, { name := "rank" }], unique := true }]
  indices := [{ name := "rank_role", columns := [{ name := "rank" }, { name := "role" }] }]

/-- Repetitions count: a unique column given twice has the wrong size, and one column given twice
has the size of a constraint, and of an index, over it and another one. -/
theorem isUnique_isIndex_repeated :
    (bookAuthor.isUnique ["slug", "slug"] = false ∧
      ∃ key ∈ bookAuthor.rowKeys, ["slug", "slug"] ⊆ key ∧ key ⊆ ["slug", "slug"]) ∧
    (bookAuthor.isUnique ["role", "role"] = true ∧
      ∀ key ∈ bookAuthor.rowKeys, ["role", "role"] ⊆ key → ¬ key ⊆ ["role", "role"]) ∧
    (bookAuthor.isIndex ["rank", "rank"] = true ∧
      ∀ index ∈ bookAuthor.indices, ¬ index.columnNames ⊆ ["rank", "rank"]) := by
  decide +kernel

/-- The whole primary key is unique in any order and a part of it is not, and the order does not
matter for the index either. -/
theorem isUnique_isIndex_iff_bookAuthor :
    ["author_id", "book_id"].Nodup ∧ ["book_id"].Nodup ∧ ["role", "rank"].Nodup ∧
    bookAuthor.isUnique ["author_id", "book_id"] = true ∧
    bookAuthor.isUnique ["book_id"] = false ∧
    bookAuthor.isIndex ["role", "rank"] = true := by
  obtain ⟨-, hwhole, -, -, hwholeFree⟩ := isUnique_isIndex_iff bookAuthor ["author_id", "book_id"]
  obtain ⟨-, hpart, -, -, hpartFree⟩ := isUnique_isIndex_iff bookAuthor ["book_id"]
  obtain ⟨-, -, -, hindex, hindexFree⟩ := isUnique_isIndex_iff bookAuthor ["role", "rank"]
  have h : ["author_id", "book_id"].Nodup := by decide
  have h' : ["book_id"].Nodup := by decide
  have h'' : ["role", "rank"].Nodup := by decide
  refine ⟨h, h', h'', ?_, ?_, ?_⟩
  · exact (hwhole fun unique _ => hwholeFree h unique).1.2 (by decide +kernel)
  · exact (hpart fun unique _ => hpartFree h' unique).2 (by decide +kernel)
  · exact (hindex fun index _ => hindexFree h'' index).2 (by decide +kernel)

end Table

end RelSchema
