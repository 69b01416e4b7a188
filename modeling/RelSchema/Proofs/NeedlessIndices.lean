import Mathlib.Data.List.Count
import RelSchema.Proofs.IndexAdditions

/-!
# Needless indices

An index is added for columns that the working map does not cover. The map forgets by name: when an
old index gives way, everything with its name is forgotten, also a unique constraint and an index
that stay. So a new index can repeat the beginning of such a construct
(`Database.synthesizeIndices_needless`), and only of such a one: what it leads has the name of an
index that was reported before it and took an old index's place (`Database.synthesizeIndices_needed`).
Where names are not shared, no new index is needless.
-/

namespace RelSchema

/-! ## Generated names and the primary key -/

theorem mem_of_replaceLast? {c : Char} {word replacement text changed : List Char}
    (hc : c ∈ replacement) (h : Text.replaceLast? word replacement text = some changed) :
    c ∈ changed := by
  induction text generalizing changed with
  | nil => cases h
  | cons d rest ih =>
    rw [Text.replaceLast?] at h
    split at h
    · rename_i tail htail
      cases h
      exact List.mem_cons_of_mem d (ih htail)
    · split at h
      · cases h
        exact List.mem_append_left _ hc
      · cases h

theorem underscore_mem_foreignKeyIndexName (key : String) :
    '_' ∈ (foreignKeyIndexName key).toList := by
  unfold foreignKeyIndexName
  split
  · rename_i changed hchanged
    rw [String.toList_ofList]
    exact mem_of_replaceLast? (by decide) hchanged
  · rw [String.toList_append]
    exact List.mem_append_left _ (by decide)

theorem underscore_mem_referencedIndexName (key : String) (ordinal : Nat) :
    '_' ∈ (referencedIndexName key ordinal).toList := by
  simp [referencedIndexName]

theorem BaseIndexName.underscore_mem {key name : String} (h : BaseIndexName key name) :
    '_' ∈ name.toList := by
  cases h with
  | own => exact underscore_mem_foreignKeyIndexName key
  | referenced ordinal => exact underscore_mem_referencedIndexName key ordinal

/-- No index gets the name under which the primary key is listed. -/
theorem SynthesizedName.ne_primaryKeyName {key name : String} (h : SynthesizedName key name) :
    name ≠ CoverageMap.primaryKeyName := by
  have hmem : '_' ∈ name.toList := by
    cases h with
    | base hbase => exact hbase.underscore_mem
    | numbered number hbase =>
      rw [String.toList_append, String.toList_append]
      exact List.mem_append_left _ (List.mem_append_left _ hbase.underscore_mem)
  rintro rfl
  exact absurd hmem (by decide)

/-! ## What is left of the old indices -/

namespace Table

variable {db : Database} {t : Table}

/-- A name is still there after one of its indices was taken out only if it was there twice. -/
theorem two_le_count_of_mem_remainingIndices {names : List String} (hnodup : names.Nodup)
    {index : Index} (hindex : index ∈ t.remainingIndices names) (hname : index.name ∈ names) :
    2 ≤ t.indexNames.count index.name := by
  have hleft : index.name ∈ t.indexNames.diff names := by
    rw [← map_name_remainingIndices]
    exact List.mem_map_of_mem hindex
  have hcount := List.count_pos_iff.2 hleft
  rw [List.count_diff, List.count_eq_one_of_mem hnodup hname] at hcount
  omega

/-- An index that is there before and after is one that was left. -/
theorem mem_remainingIndices {index : Index} (hbefore : index ∈ t.indices)
    (hafter : index ∈ (t.completedIn db).indices) :
    index ∈ t.remainingIndices ((t.createdIn db).map (·.name)) := by
  rw [completedIn_eq_replaced, withIndices_indices] at hafter
  refine (List.mem_append.1 hafter).resolve_right fun hreported => ?_
  obtain ⟨entry, hentry, rfl⟩ := List.mem_map.1 hreported
  exact not_hadIndex_of_mem_createdIn hentry ⟨_, hbefore, rfl, Or.inl rfl⟩

theorem ne_primaryKeyName_of_mem_createdIn {entry : SynthesizedIndex}
    (hentry : entry ∈ t.createdIn db) : entry.name ≠ CoverageMap.primaryKeyName := by
  have hmem : entry.index ∈ (t.completedIn db).indices := by
    rw [completedIn_eq_replaced]
    exact List.mem_append_right _ (List.mem_map_of_mem hentry)
  rcases (t.completing_run db).grown.introduced _ hmem with hold | ⟨r, -, hname⟩
  · exact absurd ⟨_, hold, rfl, Or.inl rfl⟩ (not_hadIndex_of_mem_createdIn hentry)
  · exact hname.ne_primaryKeyName

/-- Whether an index leads nothing that the table offers without it: neither the primary key, nor a
unique constraint, nor an index that is there before and after. -/
structure Needs (before after : Table) (entry : SynthesizedIndex) : Prop where
  primaryKey : ¬ entry.columns <+: before.primaryKeyNames
  uniques : ∀ unique ∈ before.uniques, ¬ entry.columns <+: unique.columnNames
  indices : ∀ old ∈ before.indices, old ∈ after.indices → ¬ entry.columns <+: old.columnNames

/-- Whether the indices and unique constraints of a table have different names, as far as they have
names. -/
def IndexNamesApart (t : Table) : Prop :=
  ((t.indexNames ++ t.uniques.map (·.name)).filter (· ≠ "")).Nodup

instance (t : Table) : Decidable t.IndexNamesApart := inferInstanceAs (Decidable (List.Nodup _))

theorem IndexNamesApart.count_le_one (h : t.IndexNamesApart) {name : String} (hname : name ≠ "") :
    t.indexNames.count name ≤ 1 := by
  have hall := List.nodup_iff_count_le_one.1 h name
  rw [List.count_filter (by simpa using hname), List.count_append] at hall
  omega

theorem IndexNamesApart.not_mem_indexNames (h : t.IndexNamesApart) {unique : Index}
    (hunique : unique ∈ t.uniques) (hname : unique.name ≠ "") : unique.name ∉ t.indexNames := by
  intro hmem
  rw [IndexNamesApart, List.filter_append, List.nodup_append] at h
  refine h.2.2 unique.name ?_ unique.name ?_ rfl
  · exact List.mem_filter.2 ⟨hmem, by simpa using hname⟩
  · exact List.mem_filter.2 ⟨List.mem_map_of_mem hunique, by simpa using hname⟩

/-- What a new index leads all the same has the name of an index that was reported before it. -/
theorem forgotten_of_leads {earlier later : List SynthesizedIndex} {entry : SynthesizedIndex}
    (hsplit : t.createdIn db = earlier ++ entry :: later) :
    ¬ entry.columns <+: t.primaryKeyNames ∧
    (∀ unique ∈ t.uniques, entry.columns <+: unique.columnNames →
      unique.name ∈ earlier.map (·.name) ∧ unique.name ∈ t.indexNames) ∧
    ∀ old ∈ t.indices, old ∈ (t.completedIn db).indices → entry.columns <+: old.columnNames →
      old.name ∈ earlier.map (·.name) ∧ 2 ≤ t.indexNames.count old.name := by
  have hadded := (t.completing_run db).added earlier entry later hsplit
  have hearlier : ∀ name ∈ earlier.map (·.name), name ∈ (t.createdIn db).map (·.name) := by
    intro name hname
    rw [hsplit, List.map_append]
    exact List.mem_append_left _ hname
  refine ⟨?_, ?_, ?_⟩
  · intro hleads
    obtain ⟨hname, -⟩ := hadded.old _ List.mem_cons_self hleads
    obtain ⟨other, hother, hsame⟩ := List.mem_map.1 (hearlier _ hname)
    exact ne_primaryKeyName_of_mem_createdIn hother hsame
  · intro unique hunique hleads
    exact hadded.old _ (mem_constructs (List.mem_append_right _ hunique)) hleads
  · intro old hbefore hafter hleads
    have hconstruct := mem_constructs (List.mem_append_left t.uniques hbefore)
    obtain ⟨hname, -⟩ := hadded.old _ hconstruct hleads
    exact ⟨hname, two_le_count_of_mem_remainingIndices (t.replacing_run db).nodup
      (mem_remainingIndices hbefore hafter) (hearlier _ hname)⟩

theorem needs_of_indexNamesApart (h : t.IndexNamesApart) {entry : SynthesizedIndex}
    (hentry : entry ∈ t.createdIn db) : t.Needs (t.completedIn db) entry := by
  obtain ⟨earlier, later, hsplit⟩ := List.append_of_mem hentry
  obtain ⟨hprimary, huniques, hindices⟩ := forgotten_of_leads hsplit
  have hnamed : ∀ name ∈ earlier.map (·.name), name ≠ "" := by
    intro name hname
    obtain ⟨other, hother, rfl⟩ := List.mem_map.1 hname
    refine ((t.replacing_run db).entries other ?_).2
    show other ∈ t.createdIn db
    rw [hsplit]
    exact List.mem_append_left _ hother
  constructor
  case primaryKey => exact hprimary
  case uniques =>
    intro unique hunique hleads
    obtain ⟨hname, hmem⟩ := huniques unique hunique hleads
    exact h.not_mem_indexNames hunique (hnamed _ hname) hmem
  case indices =>
    intro old hbefore hafter hleads
    obtain ⟨hname, htwice⟩ := hindices old hbefore hafter hleads
    have honce := h.count_le_one (hnamed _ hname)
    omega

end Table

/-! ## Completing a table of a database -/

namespace Database

variable {db db' : Database} {id : TableId} {t t' : Table} {created : List SynthesizedIndex}

/-- **New indices are needed**, but for names that are shared. A new index never leads the primary
key. It leads a unique constraint only if an index that was reported before it took the place of an
old one under the constraint's name, and an old index that is left only if it is such a one's
namesake. If no name is shared, each new index leads nothing that the table offers without it. -/
theorem synthesizeIndices_needed (ht : db.table? id = some t)
    (h : db.synthesizeIndices id = (db', created)) (ht' : db'.table? id = some t') :
    (∀ earlier entry later, created = earlier ++ entry :: later →
      ¬ entry.columns <+: t.primaryKeyNames ∧
      (∀ unique ∈ t.uniques, entry.columns <+: unique.columnNames →
        unique.name ∈ earlier.map (·.name) ∧ unique.name ∈ t.indexNames) ∧
      ∀ old ∈ t.indices, old ∈ t'.indices → entry.columns <+: old.columnNames →
        old.name ∈ earlier.map (·.name) ∧ 2 ≤ t.indexNames.count old.name) ∧
    (t.IndexNamesApart → ∀ entry ∈ created, t.Needs t' entry) := by
  rw [synthesizeIndices_of_table? ht, Prod.mk.injEq] at h
  obtain ⟨rfl, rfl⟩ := h
  rw [table?_modifyTable_self ht, Option.some.injEq] at ht'
  subst ht'
  exact ⟨fun earlier entry later hsplit => Table.forgotten_of_leads hsplit,
    fun hapart entry hentry => Table.needs_of_indexNamesApart hapart hentry⟩

/-- Books with a unique constraint and two indices under the name that the author's key generates. -/
def sharedNamesBook : Table where
  name := "book"
  columns := (((Columns.empty.push
    { name := "isbn", columnType := .varchar } (Columns.not_contains_empty "isbn")).push
    { name := "author_id", columnType := .integer } (by decide +kernel)).push
    { name := "publisher_id", columnType := .integer } (by decide +kernel)).push
    { name := "title", columnType := .varchar } (by decide +kernel)
  foreignKeys :=
    [{ name := "book_FK_1", foreignTable := "author", references := [⟨"author_id", "id"⟩] },
     { name := "book_FK_2", foreignTable := "edition", references := [⟨"isbn", "isbn"⟩] },
     { name := "book_FK_3", foreignTable := "publisher", references := [⟨"publisher_id", "id"⟩] }]
  indices :=
    [{ name := "book_FI_1", columns := [{ name := "title" }] },
     { name := "book_FI_1", columns := [{ name := "publisher_id" }] }]
  uniques := [{ name := "book_FI_1", columns := [{ name := "isbn" }], unique := true }]

def sharedNames : Database where
  name := "library"
  platform := .mysql
  tables := [sharedNamesBook]

/-- The index over the title gives way, and with it the map forgets the unique constraint and the
other index, which stay: both get an index beside them over the same columns. -/
theorem synthesizeIndices_needless :
    (sharedNames.synthesizeIndices ⟨0⟩).2.map (fun entry => (entry.name, entry.columns)) =
      [("book_FI_1", ["author_id"]), ("book_FI_2", ["isbn"]), ("book_FI_3", ["publisher_id"])] ∧
    ((sharedNames.synthesizeIndices ⟨0⟩).1.table? ⟨0⟩).map
        (fun t => ((t.indices ++ t.uniques).map fun index => (index.name, index.columnNames))) =
      some [("book_FI_1", ["publisher_id"]), ("book_FI_1", ["author_id"]), ("book_FI_2", ["isbn"]),
        ("book_FI_3", ["publisher_id"]), ("book_FI_1", ["isbn"])] ∧
    ∃ entry ∈ (sharedNames.synthesizeIndices ⟨0⟩).2, ∃ unique ∈ sharedNamesBook.uniques,
      entry.columns <+: unique.columnNames := by
  decide +kernel

/-- With the shared names nothing is repeated but what has the name of the first new index; the
author of the reviews has no shared names, and both of its new indices are needed. -/
theorem synthesizeIndices_needed_sharedNames :
    (∃ db' created t', sharedNames.table? ⟨0⟩ = some sharedNamesBook ∧
      sharedNames.synthesizeIndices ⟨0⟩ = (db', created) ∧ db'.table? ⟨0⟩ = some t' ∧
      ∀ earlier entry later, created = earlier ++ entry :: later →
        ∀ unique ∈ sharedNamesBook.uniques, entry.columns <+: unique.columnNames →
          unique.name ∈ earlier.map (·.name)) ∧
    ∃ db' created t', reviews.table? ⟨0⟩ = some reviewedAuthor ∧
      reviews.synthesizeIndices ⟨0⟩ = (db', created) ∧ db'.table? ⟨0⟩ = some t' ∧
      created.length = 2 ∧ reviewedAuthor.IndexNamesApart ∧
      ∀ entry ∈ created, reviewedAuthor.Needs t' entry := by
  constructor
  · have ht : sharedNames.table? ⟨0⟩ = some sharedNamesBook := rfl
    have h := synthesizeIndices_of_table? ht
    have ht' := table?_modifyTable_self ht fun _ => sharedNamesBook.completedIn sharedNames
    obtain ⟨hall, -⟩ := synthesizeIndices_needed ht h ht'
    exact ⟨_, _, _, ht, h, ht', fun earlier entry later hsplit unique hunique hleads =>
      ((hall earlier entry later hsplit).2.1 unique hunique hleads).1⟩
  · have ht : reviews.table? ⟨0⟩ = some reviewedAuthor := rfl
    have h := synthesizeIndices_of_table? ht
    have ht' := table?_modifyTable_self ht fun _ => reviewedAuthor.completedIn reviews
    have hapart : reviewedAuthor.IndexNamesApart := by decide +kernel
    obtain ⟨-, hneeded⟩ := synthesizeIndices_needed ht h ht'
    exact ⟨_, _, _, ht, h, ht', by decide +kernel, hapart, hneeded hapart⟩

end Database

end RelSchema
