import RelSchema.Coverage

/-!
# What a coverage map lists

A coverage map is read through its entries: which names are listed under which key
(`CoverageMap.Lists`). Recording adds entries and forgetting takes all entries of one name out
(`lists_record`, `lists_forget`), and as long as no bucket is empty a list of columns is covered
exactly when some name is listed under its key (`isCovered_iff`). The map of a table lists the
table's own constructs and nothing else (`lists_ofTable`).
-/

namespace RelSchema

/-- The leading lists of a list are its non-empty beginnings. -/
theorem mem_leadingLists_iff {α : Type} {beginning whole : List α} :
    beginning ∈ leadingLists whole ↔ beginning ≠ [] ∧ beginning <+: whole := by
  induction whole generalizing beginning with
  | nil => simp [leadingLists]
  | cons a rest ih =>
    simp only [leadingLists, List.mem_cons, List.mem_map]
    constructor
    · rintro (rfl | ⟨l, hl, rfl⟩)
      · exact ⟨by simp, rest, rfl⟩
      · exact ⟨by simp, (List.prefix_cons_inj a).2 (ih.1 hl).2⟩
    · rintro ⟨hne, hpre⟩
      cases beginning with
      | nil => exact absurd rfl hne
      | cons b l =>
        obtain ⟨rfl, hl⟩ := List.cons_prefix_cons.1 hpre
        by_cases hnil : l = []
        · exact Or.inl (by rw [hnil])
        · exact Or.inr ⟨l, ih.2 ⟨hnil, hl⟩, rfl⟩

namespace CoverageMap

/-- Whether this name is listed under this key. -/
def Lists (m : CoverageMap) (key name : String) : Prop :=
  ∃ names, (key, names) ∈ m.buckets ∧ name ∈ names

/-- Every key in the map has a name listed under it. -/
def Tight (m : CoverageMap) : Prop := ∀ bucket ∈ m.buckets, bucket.2 ≠ []

/-- The keys of the column lists that a construct over these columns serves. -/
def servedKeys (columns : List String) : List String := (leadingLists columns).map columnKey

theorem columnKey_mem_servedKeys {columns : List String} (h : columns ≠ []) :
    columnKey columns ∈ servedKeys columns :=
  List.mem_map_of_mem (mem_leadingLists_iff.2 ⟨h, List.prefix_rfl⟩)

theorem isCovered_iff {m : CoverageMap} (h : m.Tight) {columns : List String} :
    m.isCovered columns = true ↔ ∃ name, m.Lists (columnKey columns) name := by
  rw [isCovered, Option.isSome_iff_ne_none, ne_eq, List.lookup_eq_none_iff]
  constructor
  · intro hnot
    obtain ⟨⟨key, names⟩, hmem, hkey⟩ : ∃ p ∈ m.buckets, (columnKey columns == p.1) = true := by
      simpa using hnot
    rw [beq_iff_eq] at hkey
    obtain ⟨name, hname⟩ := List.exists_mem_of_ne_nil names (h _ hmem)
    exact ⟨name, names, by rwa [hkey], hname⟩
  · rintro ⟨name, names, hmem, -⟩ hall
    simpa using hall _ hmem

/-! ## Recording -/

theorem mem_addTo_iff {key name k n : String} {buckets : List (String × List String)} :
    (∃ names, (k, names) ∈ addTo key name buckets ∧ n ∈ names) ↔
      (∃ names, (k, names) ∈ buckets ∧ n ∈ names) ∨ (k = key ∧ n = name) := by
  induction buckets with
  | nil =>
    simp only [addTo, List.mem_singleton, Prod.mk.injEq, List.not_mem_nil, false_and, exists_false,
      false_or]
    constructor
    · rintro ⟨names, ⟨rfl, rfl⟩, hn⟩
      exact ⟨rfl, List.mem_singleton.1 hn⟩
    · rintro ⟨rfl, rfl⟩
      exact ⟨[n], ⟨rfl, rfl⟩, List.mem_singleton_self n⟩
  | cons bucket rest ih =>
    obtain ⟨key', names'⟩ := bucket
    rw [addTo]
    split
    · rename_i heq
      subst heq
      simp only [List.mem_cons, Prod.mk.injEq, or_and_right, exists_or, and_assoc]
      constructor
      · rintro (⟨names, rfl, rfl, hn⟩ | hrest)
        · rcases List.mem_append.1 hn with hn | hn
          · exact Or.inl (Or.inl ⟨_, rfl, rfl, hn⟩)
          · exact Or.inr ⟨rfl, List.mem_singleton.1 hn⟩
        · exact Or.inl (Or.inr hrest)
      · rintro ((⟨names, rfl, rfl, hn⟩ | hrest) | ⟨rfl, rfl⟩)
        · exact Or.inl ⟨_, rfl, rfl, List.mem_append_left _ hn⟩
        · exact Or.inr hrest
        · exact Or.inl ⟨_, rfl, rfl, List.mem_append_right _ (List.mem_singleton_self _)⟩
    · simp only [List.mem_cons, or_and_right, exists_or]
      rw [ih, or_assoc]

theorem tight_addTo {key name : String} {buckets : List (String × List String)}
    (h : ∀ bucket ∈ buckets, bucket.2 ≠ []) : ∀ bucket ∈ addTo key name buckets, bucket.2 ≠ [] := by
  induction buckets with
  | nil => simp [addTo]
  | cons bucket rest ih =>
    obtain ⟨key', names'⟩ := bucket
    obtain ⟨hhead, hrest⟩ := List.forall_mem_cons.1 h
    rw [addTo]
    split
    · exact List.forall_mem_cons.2 ⟨by simp, hrest⟩
    · exact List.forall_mem_cons.2 ⟨hhead, ih hrest⟩

theorem mem_foldl_addTo_iff {key name n : String} {lists : List (List String)}
    {buckets : List (String × List String)} :
    (∃ names, (key, names) ∈ lists.foldl (fun bs list => addTo (columnKey list) name bs) buckets ∧
        n ∈ names) ↔
      (∃ names, (key, names) ∈ buckets ∧ n ∈ names) ∨ (key ∈ lists.map columnKey ∧ n = name) := by
  induction lists generalizing buckets with
  | nil => simp
  | cons list rest ih =>
    rw [List.foldl_cons, ih, mem_addTo_iff, List.map_cons, List.mem_cons, or_and_right, or_assoc]

/-- Recording lists the name under the key of every non-empty beginning of its columns. -/
theorem lists_record {m : CoverageMap} {name key n : String} {columns : List String} :
    (m.record name columns).Lists key n ↔
      m.Lists key n ∨ (key ∈ servedKeys columns ∧ n = name) :=
  mem_foldl_addTo_iff

theorem tight_record {m : CoverageMap} (h : m.Tight) (name : String) (columns : List String) :
    (m.record name columns).Tight := by
  have hfold : ∀ (lists : List (List String)) (buckets : List (String × List String)),
      (∀ bucket ∈ buckets, bucket.2 ≠ []) →
        ∀ bucket ∈ lists.foldl (fun bs list => addTo (columnKey list) name bs) buckets,
          bucket.2 ≠ [] := by
    intro lists
    induction lists with
    | nil => exact fun _ h => h
    | cons list rest ih => exact fun buckets h => ih _ (tight_addTo h)
  exact hfold _ _ h

/-! ## Forgetting -/

/-- Forgetting takes out the entries of one name, under every key, and no others. -/
theorem lists_forget {m : CoverageMap} {name key n : String} :
    (m.forget name).Lists key n ↔ m.Lists key n ∧ n ≠ name := by
  simp only [Lists, forget, List.mem_filter, List.mem_map, Prod.exists, Prod.mk.injEq]
  constructor
  · rintro ⟨names, ⟨⟨key', names', hmem, rfl, rfl⟩, -⟩, hn⟩
    rw [List.mem_filter] at hn
    exact ⟨⟨names', hmem, hn.1⟩, by simpa using hn.2⟩
  · rintro ⟨⟨names, hmem, hn⟩, hne⟩
    have hkept : n ∈ names.filter (· != name) := List.mem_filter.2 ⟨hn, by simpa using hne⟩
    refine ⟨_, ⟨⟨key, names, hmem, rfl, rfl⟩, ?_⟩, hkept⟩
    simpa [List.isEmpty_iff] using List.ne_nil_of_mem hkept

theorem tight_forget (m : CoverageMap) (name : String) : (m.forget name).Tight := by
  intro bucket hmem
  simpa [List.isEmpty_iff] using (List.mem_filter.1 hmem).2

end CoverageMap

/-! ## The map of a table -/

/-- What serves column lists in a table: the primary key, the indices, the unique constraints. -/
def Table.constructs (t : Table) : List (String × List String) :=
  (CoverageMap.primaryKeyName, t.primaryKeyNames) ::
    (t.indices ++ t.uniques).map fun index => (index.name, index.columnNames)

namespace CoverageMap

theorem ofTable_eq_foldl (t : Table) :
    ofTable t = t.constructs.foldl (fun m construct => m.record construct.1 construct.2) {} := by
  simp only [ofTable, Table.constructs, List.foldl_cons, List.foldl_map]
  congr 1
  split
  · rename_i hempty
    rw [List.isEmpty_iff.1 hempty]
    rfl
  · rfl

theorem lists_foldl_record {constructs : List (String × List String)} {m : CoverageMap}
    {key name : String} :
    (constructs.foldl (fun m construct => m.record construct.1 construct.2) m).Lists key name ↔
      m.Lists key name ∨ ∃ construct ∈ constructs, construct.1 = name ∧
        key ∈ servedKeys construct.2 := by
  induction constructs generalizing m with
  | nil => simp
  | cons construct rest ih =>
    rw [List.foldl_cons, ih, lists_record, or_assoc]
    constructor
    · rintro (h | ⟨hkey, rfl⟩ | ⟨c, hc, h⟩)
      · exact Or.inl h
      · exact Or.inr ⟨construct, List.mem_cons_self, rfl, hkey⟩
      · exact Or.inr ⟨c, List.mem_cons_of_mem _ hc, h⟩
    · rintro (h | ⟨c, hc, rfl, hkey⟩)
      · exact Or.inl h
      · rcases List.mem_cons.1 hc with rfl | hc
        · exact Or.inr (Or.inl ⟨hkey, rfl⟩)
        · exact Or.inr (Or.inr ⟨c, hc, rfl, hkey⟩)

/-- The map of a table lists the constructs of the table under the keys they serve. -/
theorem lists_ofTable {t : Table} {key name : String} :
    (ofTable t).Lists key name ↔ ∃ construct ∈ t.constructs, construct.1 = name ∧
      key ∈ servedKeys construct.2 := by
  rw [ofTable_eq_foldl, lists_foldl_record]
  simp [Lists]

theorem tight_ofTable (t : Table) : (ofTable t).Tight := by
  rw [ofTable_eq_foldl]
  have hfold : ∀ (constructs : List (String × List String)) (m : CoverageMap), m.Tight →
      (constructs.foldl (fun m construct => m.record construct.1 construct.2) m).Tight := by
    intro constructs
    induction constructs with
    | nil => exact fun _ h => h
    | cons construct rest ih => exact fun m h => ih _ (tight_record h _ _)
  exact hfold _ _ (by simp [Tight])

end CoverageMap

end RelSchema
