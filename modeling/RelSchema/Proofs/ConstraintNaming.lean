import Mathlib.Data.List.Nodup
import Mathlib.Data.List.Perm.Subperm
import RelSchema.Proofs.Idempotence
import RelSchema.Proofs.StandardNames

/-!
# Naming constraints

The pass over a table remembers the names that its constraints have and the ones that it gives. A
number is skipped only if its name is remembered, and since different numbers give different names,
one of the numbers that are tried is free. So the names of a table stay distinct
(`Table.nodup_constraintNames_nameConstraints`). What other tables use is not remembered: two tables
can get the same name, if one of their names had to be cut (`Resolver.standardNames_shared`).
-/

namespace RelSchema

/-! ## Free numbers -/

section FreeNumbers

variable {nameOf : Nat → String} {taken : List String} {tries number n : Nat}

theorem le_firstFreeNumber : number ≤ firstFreeNumber nameOf taken tries number := by
  induction tries generalizing number with
  | zero => exact Nat.le_refl _
  | succ tries ih =>
    rw [firstFreeNumber]
    split
    · exact Nat.le_of_succ_le ih
    · exact Nat.le_refl _

theorem firstFreeNumber_le : firstFreeNumber nameOf taken tries number ≤ number + tries := by
  induction tries generalizing number with
  | zero => exact Nat.le_refl _
  | succ tries ih =>
    rw [firstFreeNumber]
    split
    · exact Nat.le_trans ih (by omega)
    · omega

/-- Only numbers whose names are taken are skipped. -/
theorem mem_taken_of_lt_firstFreeNumber (hle : number ≤ n)
    (hlt : n < firstFreeNumber nameOf taken tries number) : nameOf n ∈ taken := by
  induction tries generalizing number with
  | zero => exact absurd hlt (Nat.not_lt.2 hle)
  | succ tries ih =>
    rw [firstFreeNumber] at hlt
    split at hlt
    · rename_i htaken
      rcases Nat.eq_or_lt_of_le hle with rfl | hnext
      · exact List.contains_iff_mem.1 htaken
      · exact ih hnext hlt
    · exact absurd hlt (Nat.not_lt.2 hle)

/-- A search that did not use up its tries has found a free number. -/
theorem not_mem_taken_of_lt (h : firstFreeNumber nameOf taken tries number < number + tries) :
    nameOf (firstFreeNumber nameOf taken tries number) ∉ taken := by
  induction tries generalizing number with
  | zero => exact absurd h (Nat.not_lt.2 le_firstFreeNumber)
  | succ tries ih =>
    rw [firstFreeNumber] at h ⊢
    split
    · rename_i htaken
      rw [if_pos htaken] at h
      exact ih (by omega)
    · rename_i hfree
      exact fun hmem => hfree (List.contains_iff_mem.2 hmem)

/-- With as many tries as names are taken, a number is found whose name is free. -/
theorem firstFreeNumber_free (hinj : Function.Injective nameOf) (htries : taken.length ≤ tries) :
    nameOf (firstFreeNumber nameOf taken tries number) ∉ taken := by
  intro hmem
  have hend : firstFreeNumber nameOf taken tries number = number + tries := by
    rcases Nat.eq_or_lt_of_le (firstFreeNumber_le : firstFreeNumber nameOf taken tries number ≤ _)
      with h | h
    · exact h
    · exact absurd hmem (not_mem_taken_of_lt h)
  -- otherwise all names that were looked at are taken, and they are too many
  have hall : (List.range' number (tries + 1)).map nameOf ⊆ taken := by
    intro name hname
    obtain ⟨n, hn, rfl⟩ := List.mem_map.1 hname
    obtain ⟨hle, hlt⟩ := List.mem_range'_1.1 hn
    rcases Nat.eq_or_lt_of_le (Nat.le_of_lt_succ hlt) with rfl | hlt
    · rwa [hend] at hmem
    · exact mem_taken_of_lt_firstFreeNumber hle (by rwa [hend])
  have hnodup : ((List.range' number (tries + 1)).map nameOf).Nodup :=
    (List.nodup_range' (h := by decide)).map hinj
  have hlength := hnodup.length_le_of_subset hall
  rw [List.length_map, List.length_range'] at hlength
  omega

end FreeNumbers

/-! ## Names for one collection -/

/-- The standard names of one table. -/
def NameSource.standard (table : String) (maxLength : Nat) : NameSource :=
  ⟨.standard, table, maxLength⟩

/-- What a generated name is: a standard name that is not taken, and the first such from the number
of its position on. -/
theorem NameSource.generate_standard (table : String) (maxLength : Nat) (kind : ConstraintKind)
    (taken : List String) (position : Nat) :
    (standard table maxLength).generate kind taken position ∉ taken ∧
    ∃ number, position < number ∧ number ≤ position + 1 + taken.length ∧
      (standard table maxLength).generate kind taken position =
        NameStrategy.standardName ⟨table, kind, number, maxLength⟩ ∧
      ∀ n, position < n → n < number →
        NameStrategy.standardName ⟨table, kind, n, maxLength⟩ ∈ taken := by
  have hinj : Function.Injective ((standard table maxLength).nameOf kind) :=
    fun _ _ h => (NameStrategy.standardName_eq_iff.1 h).2.1
  have htries : taken.length ≤ NameStrategy.standard.sharing * taken.length :=
    Nat.le_of_eq (Nat.one_mul _).symm
  refine ⟨firstFreeNumber_free hinj htries, _, le_firstFreeNumber, ?_, rfl, ?_⟩
  · exact Nat.le_trans firstFreeNumber_le (Nat.le_of_eq (by rw [standard, NameStrategy.standard,
      Nat.one_mul]))
  · exact fun n hle hlt => mem_taken_of_lt_firstFreeNumber hle hlt

section Filling

variable {α : Type} [Named α]

/-- The names that the entities of a collection have. -/
def givenNames (l : List α) : List String := (l.map Named.name).filter (!·.isEmpty)

theorem taken_fillNames (source : NameSource) (kind : ConstraintKind) (position : Nat)
    (taken : List String) (l : List α) : (fillNames source kind position taken l).taken =
      ((fillNames source kind position taken l).assigned.map (·.name)).reverse ++ taken := by
  induction l generalizing position taken with
  | nil => rfl
  | cons a rest ih =>
    rw [fillNames]
    split
    · dsimp only
      rw [ih, List.map_cons, List.reverse_cons, List.append_assoc, List.singleton_append]
    · exact ih _ _

/-- Afterwards the collection has the names that it had and the ones that were assigned. -/
theorem names_fillNames
    (hrename : ∀ (a : α) (name : String), Named.name (Named.rename a name) = name)
    (source : NameSource) (kind : ConstraintKind) (position : Nat) (taken : List String)
    (l : List α) : ((fillNames source kind position taken l).items.map Named.name).Perm
      (givenNames l ++ (fillNames source kind position taken l).assigned.map (·.name)) := by
  induction l generalizing position taken with
  | nil => exact .refl _
  | cons a rest ih =>
    rw [fillNames, givenNames, List.map_cons, List.filter_cons]
    split
    · rename_i hunnamed
      rw [if_neg (by simp [hunnamed])]
      dsimp only
      rw [List.map_cons, List.map_cons, hrename]
      exact ((ih _ _).cons _).trans List.perm_middle.symm
    · rename_i hnamed
      rw [if_pos (by simp [hnamed])]
      exact (ih _ _).cons _

theorem nodup_taken_fillNames (table : String) (maxLength : Nat) (kind : ConstraintKind)
    (position : Nat) {taken : List String} (h : taken.Nodup) (l : List α) :
    (fillNames (.standard table maxLength) kind position taken l).taken.Nodup := by
  induction l generalizing position taken with
  | nil => exact h
  | cons a rest ih =>
    rw [fillNames]
    split
    · have hfree := (NameSource.generate_standard table maxLength kind taken position).1
      exact ih _ (List.nodup_cons.2 ⟨hfree, h⟩)
    · exact ih _ h

/-- An assigned name is a standard name, whose number is not far from the position. -/
theorem exists_number_of_mem_assigned (table : String) (maxLength : Nat) (kind : ConstraintKind)
    (position : Nat) (taken : List String) (l : List α) {a : AssignedName}
    (h : a ∈ (fillNames (.standard table maxLength) kind position taken l).assigned) :
    ∃ number, number ≤ position + l.length +
        (fillNames (.standard table maxLength) kind position taken l).taken.length ∧
      a.name = NameStrategy.standardName ⟨table, kind, number, maxLength⟩ := by
  induction l generalizing position taken with
  | nil => cases h
  | cons b rest ih =>
    rw [fillNames] at h ⊢
    split at h
    · rename_i hunnamed
      rw [if_pos hunnamed]
      dsimp only at h ⊢
      rcases List.mem_cons.1 h with rfl | h
      · obtain ⟨-, number, -, hle, hname, -⟩ :=
          NameSource.generate_standard table maxLength kind taken position
        refine ⟨number, ?_, hname⟩
        rw [taken_fillNames, List.length_append, List.length_cons, List.length_cons]
        omega
      · obtain ⟨number, hle, hname⟩ := ih _ _ h
        refine ⟨number, ?_, hname⟩
        rw [List.length_cons]
        omega
    · rename_i hnamed
      rw [if_neg hnamed]
      dsimp only at h ⊢
      obtain ⟨number, hle, hname⟩ := ih _ _ h
      refine ⟨number, ?_, hname⟩
      rw [List.length_cons]
      omega

theorem length_le_taken_fillNames (source : NameSource) (kind : ConstraintKind) (position : Nat)
    (taken : List String) (l : List α) :
    taken.length ≤ (fillNames source kind position taken l).taken.length := by
  rw [taken_fillNames, List.length_append]
  exact Nat.le_add_left ..

/-- What is remembered at the end was remembered before, or is a standard name. -/
theorem mem_taken_fillNames {table : String} {maxLength : Nat} {kind : ConstraintKind}
    {position : Nat} {taken : List String} {l : List α} {name : String}
    (h : name ∈ (fillNames (.standard table maxLength) kind position taken l).taken) :
    name ∈ taken ∨ ∃ number, number ≤ position + l.length +
        (fillNames (.standard table maxLength) kind position taken l).taken.length ∧
      name = NameStrategy.standardName ⟨table, kind, number, maxLength⟩ := by
  rw [taken_fillNames, List.mem_append, List.mem_reverse, List.mem_map] at h
  rcases h with ⟨a, ha, rfl⟩ | h
  · exact Or.inr (exists_number_of_mem_assigned table maxLength kind position taken l ha)
  · exact Or.inl h

/-- With standard names nothing is left unnamed, so all names count as given afterwards. -/
theorem givenNames_fillNames
    (hrename : ∀ (a : α) (name : String), Named.name (Named.rename a name) = name)
    (table : String) (maxLength : Nat) (kind : ConstraintKind) (position : Nat)
    (taken : List String) (l : List α) :
    (givenNames (fillNames (.standard table maxLength) kind position taken l).items).Perm
      (givenNames l ++
        (fillNames (.standard table maxLength) kind position taken l).assigned.map (·.name)) := by
  have hsource : ∀ kind number, (NameSource.standard table maxLength).nameOf kind number ≠ "" :=
    fun _ _ => Table.standardName_ne_empty _
  have hnamed := Table.named_fillNames hrename hsource kind position taken l
  rw [givenNames, List.filter_eq_self.2]
  · exact names_fillNames hrename _ kind position taken l
  · intro name hname
    obtain ⟨a, ha, rfl⟩ := List.mem_map.1 hname
    simpa [String.isEmpty_iff] using hnamed a ha

end Filling

/-! ## Names for one table -/

namespace Table

/-- The number of constraints of a table. -/
def constraintCount (t : Table) : Nat := t.foreignKeys.length + t.indices.length + t.uniques.length

theorem constraintNames_eq_givenNames (t : Table) : t.constraintNames =
    givenNames t.foreignKeys ++ givenNames t.indices ++ givenNames t.uniques := by
  rw [constraintNames, List.filter_append, List.filter_append]
  rfl

theorem length_constraintNames_le (t : Table) : t.constraintNames.length ≤ t.constraintCount := by
  refine Nat.le_trans (List.length_filter_le ..) ?_
  simp [constraintCount, Nat.add_assoc]

/-- The names that are remembered when the pass over a table ends. -/
def namesRemembered (t : Table) (maxLength : Nat) : List String :=
  let source := NameSource.standard t.name maxLength
  let keys := fillNames source .foreignKey 0 t.constraintNames t.foreignKeys
  let indices := fillNames source .index 0 keys.taken t.indices
  (fillNames source .unique 0 indices.taken t.uniques).taken

theorem nodup_namesRemembered {t : Table} (h : t.constraintNames.Nodup) (maxLength : Nat) :
    (t.namesRemembered maxLength).Nodup := by
  have hkeys := nodup_taken_fillNames t.name maxLength .foreignKey 0 h t.foreignKeys
  have hindices := nodup_taken_fillNames t.name maxLength .index 0 hkeys t.indices
  exact nodup_taken_fillNames t.name maxLength .unique 0 hindices t.uniques

/-- These are the names that the table has at the end. -/
theorem namesRemembered_perm (t : Table) (maxLength : Nat) : (t.namesRemembered maxLength).Perm
    (t.nameConstraints .standard maxLength).1.constraintNames := by
  rw [constraintNames_eq_givenNames]
  have hkeys := givenNames_fillNames (fun _ _ => rfl) t.name maxLength .foreignKey 0
    t.constraintNames t.foreignKeys
  have hindices := givenNames_fillNames (fun _ _ => rfl) t.name maxLength .index 0
    (fillNames (.standard t.name maxLength) .foreignKey 0 t.constraintNames t.foreignKeys).taken
    t.indices
  have huniques := givenNames_fillNames (fun _ _ => rfl) t.name maxLength .unique 0
    (fillNames (.standard t.name maxLength) .index 0
      (fillNames (.standard t.name maxLength) .foreignKey 0 t.constraintNames t.foreignKeys).taken
      t.indices).taken t.uniques
  refine List.Perm.trans ?_ ((hkeys.append hindices).append huniques).symm
  unfold namesRemembered
  dsimp only
  rw [taken_fillNames, taken_fillNames, taken_fillNames, List.perm_iff_count]
  intro name
  simp only [List.count_append, List.count_reverse]
  rw [constraintNames_eq_givenNames]
  simp only [List.count_append]
  omega

/-- **Names stay distinct within a table**: no generated name repeats one that the table has. -/
theorem nodup_constraintNames_nameConstraints {t : Table} (h : t.constraintNames.Nodup)
    (maxLength : Nat) : (t.nameConstraints .standard maxLength).1.constraintNames.Nodup :=
  (t.namesRemembered_perm maxLength).nodup_iff.1 (nodup_namesRemembered h maxLength)

theorem constraintCount_nameConstraints (t : Table) (strategy : NameStrategy) (maxLength : Nat) :
    (t.nameConstraints strategy maxLength).1.constraintCount = t.constraintCount := by
  unfold nameConstraints constraintCount
  simp only [length_items_fillNames]

/-- Every name is one that the table had, or a standard name with a number that is not far off. -/
theorem mem_constraintNames_nameConstraints {t : Table} {maxLength : Nat} {name : String}
    (h : name ∈ (t.nameConstraints .standard maxLength).1.constraintNames) :
    name ∈ t.constraintNames ∨ ∃ kind number, number ≤ 2 * t.constraintCount ∧
      name = NameStrategy.standardName ⟨t.name, kind, number, maxLength⟩ := by
  have hlength : (t.namesRemembered maxLength).length ≤ t.constraintCount := by
    rw [(t.namesRemembered_perm maxLength).length_eq,
      ← constraintCount_nameConstraints t .standard maxLength]
    exact length_constraintNames_le _
  rw [← (t.namesRemembered_perm maxLength).mem_iff] at h
  unfold namesRemembered at h hlength
  dsimp only [constraintCount] at h hlength ⊢
  -- the last collection first: what it did not add was remembered when its turn came
  rcases mem_taken_fillNames h with h | ⟨number, hnumber, rfl⟩
  · have hindices := Nat.le_trans (length_le_taken_fillNames ..) hlength
    rcases mem_taken_fillNames h with h | ⟨number, hnumber, rfl⟩
    · have hkeys := Nat.le_trans (length_le_taken_fillNames ..) hindices
      rcases mem_taken_fillNames h with h | ⟨number, hnumber, rfl⟩
      · exact Or.inl h
      · exact Or.inr ⟨.foreignKey, number, by omega, rfl⟩
    · exact Or.inr ⟨.index, number, by omega, rfl⟩
  · exact Or.inr ⟨.unique, number, by omega, rfl⟩

/-! ## Names of a finalized table -/

/-- The indices over the suffixes of the key are added unnamed. -/
theorem constraintNames_heavilyIndexed (t : Table) :
    t.heavilyIndexed.constraintNames = t.constraintNames := by
  have hsuffix : ∀ (t : Table) (suffix : List String),
      (t.indexSuffix suffix).1.constraintNames = t.constraintNames := by
    intro t suffix
    unfold indexSuffix
    split
    · rfl
    · simp [constraintNames, addIndex, Index.on]
  have hsuffixes : ∀ (suffixes : List (List String)) (t : Table),
      (t.indexSuffixes suffixes).1.constraintNames = t.constraintNames := by
    intro suffixes
    induction suffixes with
    | nil => exact fun _ => rfl
    | cons suffix rest ih => exact fun t => (ih _).trans (hsuffix t suffix)
  unfold heavilyIndexed
  split
  · exact hsuffixes _ t
  · rfl

/-- Finalizing names the constraints of a table that has the same names given. -/
theorem exists_finalized_eq_nameConstraints {t : Table} (h : BehaviorRegistry.Known t)
    (maxLength : Nat) : ∃ u : Table, u.name = t.name ∧ u.constraintNames = t.constraintNames ∧
      (t.finalized maxLength).constraintNames =
        (u.nameConstraints .standard maxLength).1.constraintNames ∧
      (t.finalized maxLength).constraintCount = u.constraintCount := by
  obtain ⟨columns, -, hfinalize⟩ := finalize_of_known h maxLength
  have hidMethod : ∀ u : Table, u.normalizeIdMethod.1.constraintNames = u.constraintNames ∧
      u.normalizeIdMethod.1.constraintCount = u.constraintCount := by
    intro u
    unfold normalizeIdMethod
    split <;> exact ⟨rfl, rfl⟩
  refine ⟨((t.withColumns columns).deriveExternalNames .standard).heavilyIndexed, ?_, ?_, ?_, ?_⟩
  · obtain ⟨indices, hindices⟩ :=
      heavilyIndexed_eq_withIndices ((t.withColumns columns).deriveExternalNames .standard)
    rw [hindices]
    rfl
  · rw [constraintNames_heavilyIndexed]
    rfl
  · rw [finalized, hfinalize, table_complete, (hidMethod _).1]
  · rw [finalized, hfinalize, table_complete, (hidMethod _).2, constraintCount_nameConstraints]

theorem nodup_constraintNames_finalized {t : Table} (h : BehaviorRegistry.Known t)
    (hnodup : t.constraintNames.Nodup) (maxLength : Nat) :
    (t.finalized maxLength).constraintNames.Nodup := by
  obtain ⟨u, -, hgiven, hnames, -⟩ := exists_finalized_eq_nameConstraints h maxLength
  rw [hnames]
  exact nodup_constraintNames_nameConstraints (hgiven ▸ hnodup) maxLength

theorem mem_constraintNames_finalized {t : Table} (h : BehaviorRegistry.Known t) {maxLength : Nat}
    {name : String} (hname : name ∈ (t.finalized maxLength).constraintNames) :
    name ∈ t.constraintNames ∨
      ∃ kind number, number ≤ 2 * (t.finalized maxLength).constraintCount ∧
        name = NameStrategy.standardName ⟨t.name, kind, number, maxLength⟩ := by
  obtain ⟨u, htable, hgiven, hnames, hcount⟩ := exists_finalized_eq_nameConstraints h maxLength
  rw [hnames] at hname
  rw [hcount, ← hgiven, ← htable]
  exact mem_constraintNames_nameConstraints hname

end Table

/-! ## Names across tables -/

/-- The names of the table that it did not have in an earlier state. -/
def Table.newNames (t earlier : Table) : List String :=
  t.constraintNames.filter fun name => !earlier.constraintNames.contains name

namespace Resolver

/-- **Which generated names are shared.** Scopes share a standard name exactly if they agree in kind
and number and their tables are cut to the same text. So a name that finalizing gave to constraints
of two tables is for the same kind and number at both, and one of the table names was cut for it. -/
theorem standardNames_shared (a b : ConstraintScope) (check : ReferenceCheck) (s : Resolution) :
    (NameStrategy.standardName a = NameStrategy.standardName b ↔
      a.kind = b.kind ∧ a.number = b.number ∧ NameStrategy.stem a = NameStrategy.stem b) ∧
    (((standard check).finalize s).error = none →
      ∀ (i j : TableId) (t u t' u' : Table), s.db.table? i = some t → s.db.table? j = some u →
        ((standard check).finalize s).state.db.table? i = some t' →
        ((standard check).finalize s).state.db.table? j = some u' → t.name ≠ u.name →
        ∀ name ∈ t'.newNames t, name ∈ u'.newNames u → ∃ kind number,
          let scope (table : String) : ConstraintScope :=
            ⟨table, kind, number, s.db.platform.maxIdentifierLength⟩
          name = NameStrategy.standardName (scope t.name) ∧
            name = NameStrategy.standardName (scope u.name) ∧
            (NameStrategy.tableBudget (scope t.name) < t.name.utf8ByteSize ∨
              NameStrategy.tableBudget (scope u.name) < u.name.utf8ByteSize)) := by
  refine ⟨NameStrategy.standardName_eq_iff, ?_⟩
  intro hnone i j t u t' u' ht hu ht' hu' hne name hname hname'
  have hknown := error_finalize_standard_iff.1 hnone
  -- each table is finalized by itself, so a new name is a standard name of its table
  have hstandard : ∀ (id : TableId) (t t' : Table), s.db.table? id = some t →
      ((standard check).finalize s).state.db.table? id = some t' → name ∈ t'.newNames t →
      ∃ kind number, name =
        NameStrategy.standardName ⟨t.name, kind, number, s.db.platform.maxIdentifierLength⟩ := by
    intro id t t' ht ht' hnew
    rw [db_finalize_standard hnone, Database.table?_mapTables, ht] at ht'
    cases ht'
    obtain ⟨hmem, hnot⟩ := List.mem_filter.1 hnew
    rcases Table.mem_constraintNames_finalized (hknown t (List.mem_of_getElem? ht)) hmem with
      hgiven | ⟨kind, number, -, hname⟩
    · simp [hgiven] at hnot
    · exact ⟨kind, number, hname⟩
  obtain ⟨kind, number, hfirst⟩ := hstandard i t t' ht ht' hname
  obtain ⟨kind', number', hsecond⟩ := hstandard j u u' hu hu' hname'
  have hshared := hfirst.symm.trans hsecond
  obtain ⟨hkind, hnumber, -⟩ := NameStrategy.standardName_eq_iff.1 hshared
  cases hkind
  cases hnumber
  exact ⟨kind, number, hfirst, hsecond, NameStrategy.exists_cut_of_standardName_eq hshared hne⟩

/-- Two tables whose names begin alike, on a platform with short identifiers. -/
def orderHistories : Database :=
  ({ name := "shop", platform := .oracle } : Database).withTables
    [{ name := "customer_order_line_history_2023"
       columns := Columns.empty.push { name := "id", columnType := .integer }
         (Columns.not_contains_empty "id")
       indices := [{ columns := [{ name := "id" }] }] },
     { name := "customer_order_line_history_2024"
       columns := Columns.empty.push { name := "id", columnType := .integer }
         (Columns.not_contains_empty "id")
       indices := [{ columns := [{ name := "id" }] }] }]

/-- The database after the first phase. -/
def finalizedHistories : Walk Resolution :=
  (standard .tolerant).finalize ⟨orderHistories, { timestamp := "" }⟩

/-- Both tables give the same name to their index, and so do the scopes it is generated from. -/
theorem standardNames_shared_orderHistories :
    (let scope (table : String) : ConstraintScope := ⟨table, .index, 1, 30⟩
     scope "customer_order_line_history_2023" ≠ scope "customer_order_line_history_2024" ∧
      NameStrategy.standardName (scope "customer_order_line_history_2023") =
        NameStrategy.standardName (scope "customer_order_line_history_2024")) ∧
    finalizedHistories.error = none ∧
    finalizedHistories.state.db.tables.map (fun t => t.indices.map (·.name)) =
      [["customer_order_line_histor_I_1"], ["customer_order_line_histor_I_1"]] := by
  decide +kernel

/-- At the two tables the name is for the same kind and number, and a table name was cut for it. -/
theorem standardNames_shared_cut : ∃ kind number,
    let scope (table : String) : ConstraintScope := ⟨table, kind, number, 30⟩
    "customer_order_line_histor_I_1" =
        NameStrategy.standardName (scope "customer_order_line_history_2023") ∧
      "customer_order_line_histor_I_1" =
        NameStrategy.standardName (scope "customer_order_line_history_2024") ∧
      (NameStrategy.tableBudget (scope "customer_order_line_history_2023") < 32 ∨
        NameStrategy.tableBudget (scope "customer_order_line_history_2024") < 32) :=
  (standardNames_shared ⟨"customer_order_line_history_2023", .index, 1, 30⟩
    ⟨"customer_order_line_history_2024", .index, 1, 30⟩ .tolerant
    ⟨orderHistories, { timestamp := "" }⟩).2 (by decide +kernel) ⟨0⟩ ⟨1⟩
    ((orderHistories.table? ⟨0⟩).getD default) ((orderHistories.table? ⟨1⟩).getD default)
    ((finalizedHistories.state.db.table? ⟨0⟩).getD default)
    ((finalizedHistories.state.db.table? ⟨1⟩).getD default)
    (by decide +kernel) (by decide +kernel) (by decide +kernel) (by decide +kernel)
    (by decide +kernel) "customer_order_line_histor_I_1" (by decide +kernel) (by decide +kernel)

end Resolver

end RelSchema
