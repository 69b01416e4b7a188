import RelSchema.Proofs.IndexNames

/-!
# Identifier limits

Generated names are cut to the limit of the platform, and the swap of a key's tag keeps the length.
Other names that are derived from a key's name are longer than it, and they are not cut. So after a
resolve all names are within the limit up to those of indices that were added for a foreign key
(`Resolver.identifierLimits_resolve`).
-/

namespace RelSchema

/-! ## Exchanging a word for one of the same length -/

theorem byteCount_replaceLast? {word replacement text changed : List Char}
    (hsize : Text.byteCount replacement = Text.byteCount word)
    (h : Text.replaceLast? word replacement text = some changed) :
    Text.byteCount changed = Text.byteCount text := by
  induction text generalizing changed with
  | nil => cases h
  | cons c rest ih =>
    rw [Text.replaceLast?] at h
    cases hrest : Text.replaceLast? word replacement rest with
    | some tail =>
      rw [hrest] at h
      cases h
      rw [Text.byteCount, Text.byteCount, ih hrest]
    | none =>
      rw [hrest] at h
      dsimp only at h
      split at h
      · rename_i hprefix
        cases h
        obtain ⟨after, hafter⟩ := List.isPrefixOf_iff_prefix.1 hprefix
        rw [← hafter, List.drop_left, Text.byteCount_append, Text.byteCount_append, hsize]
      · cases h

/-- The name of the index behind a key's own columns is as long as the key's name, unless there is
no tag to swap. -/
theorem foreignKeyIndexName_cases (key : String) : foreignKeyIndexName key = "FI_" ++ key ∨
    (foreignKeyIndexName key).utf8ByteSize = key.utf8ByteSize := by
  unfold foreignKeyIndexName
  cases hreplaced : Text.replaceLast? "FK_".toList "FI_".toList key.toList with
  | none => exact Or.inl rfl
  | some changed =>
    refine Or.inr ?_
    show (String.ofList changed).utf8ByteSize = _
    rw [Text.utf8ByteSize_ofList, byteCount_replaceLast? (by decide) hreplaced,
      Text.utf8ByteSize_eq_byteCount]

/-! ## Names within the limit -/

namespace Table

/-- Finalizing keeps names within the limit, as long as the numbers in them are not astronomic. -/
theorem utf8ByteSize_le_of_mem_finalized {t : Table} {platform : Platform}
    (hknown : BehaviorRegistry.Known t)
    (hgiven : ∀ name ∈ t.constraintNames, name.utf8ByteSize ≤ platform.maxIdentifierLength)
    (hcount : (t.finalized platform.maxIdentifierLength).constraintCount < 2 ^ 63) :
    ∀ name ∈ (t.finalized platform.maxIdentifierLength).constraintNames,
      name.utf8ByteSize ≤ platform.maxIdentifierLength := by
  intro name hname
  rcases mem_constraintNames_finalized hknown hname with hold | ⟨kind, number, hnumber, rfl⟩
  · exact hgiven name hold
  · have hdigits : number < 10 ^ 26 := by omega
    have htail : (NameStrategy.standardTail kind number).utf8ByteSize ≤ 4 + 26 :=
      NameStrategy.utf8ByteSize_standardTail_le (by decide) hdigits
    exact NameStrategy.utf8ByteSize_standardName_le
      (Nat.le_trans htail platform.thirty_le_maxIdentifierLength)

theorem LinkGrowth.constraintCount_le {platform : Platform} {keys : List ForeignKey} {t t' : Table}
    (h : t.LinkGrowth platform keys t') : t.constraintCount ≤ t'.constraintCount := by
  have hlength := h.growth.length_le
  rw [constraintCount, constraintCount, h.foreignKeys, h.uniques]
  omega

end Table

namespace Resolver

variable {check : ReferenceCheck} {db db' : Database} {timestamp : String} {report : Report}

/-- **Identifier limits after a resolve**, if the given names are within the limit and each table
has a number of constraints that a machine can count: the names of all foreign keys and unique
constraints are within the limit, and so are those of all indices that were not added for a foreign
key. The index behind a key's own columns is too, unless its name is the key's with a prefix. -/
theorem identifierLimits_resolve (h : (standard check).resolve timestamp db = (db', .ok report))
    (hgiven : ∀ t ∈ db.tables, ∀ name ∈ t.constraintNames,
      name.utf8ByteSize ≤ db.platform.maxIdentifierLength)
    (hcount : ∀ t ∈ db'.tables, t.constraintCount < 2 ^ 63) : ∀ t ∈ db'.tables,
      (∀ key ∈ t.foreignKeys, key.name.utf8ByteSize ≤ db.platform.maxIdentifierLength) ∧
      (∀ unique ∈ t.uniques, unique.name.utf8ByteSize ≤ db.platform.maxIdentifierLength) ∧
      ∀ index ∈ t.indices, index.name.utf8ByteSize ≤ db.platform.maxIdentifierLength ∨
        (db.platform.needsKeyIndices = true ∧
          ∃ u ∈ db'.tables, ∃ key ∈ u.foreignKeys, SynthesizedName key.name index.name ∧
            (index.name = foreignKeyIndexName key.name → index.name = "FI_" ++ key.name)) := by
  -- what a table of the result shares with its finalized state is within the limit
  have hfinalized : ∀ t' ∈ db'.tables, ∃ start : Table,
      start.LinkGrowth db.platform db'.foreignKeys t' ∧ start.ConstraintsNamed ∧
        ∀ name ∈ start.constraintNames, name.utf8ByteSize ≤ db.platform.maxIdentifierLength := by
    intro t' ht'
    obtain ⟨t, ht, hknown, -, hlinked⟩ := exists_finalized_of_resolve h ht'
    exact ⟨_, hlinked, (Table.finished_finalized hknown _).named,
      Table.utf8ByteSize_le_of_mem_finalized hknown (hgiven t ht)
        (Nat.lt_of_le_of_lt hlinked.constraintCount_le (hcount t' ht'))⟩
  have hkeys : ∀ key ∈ db'.foreignKeys,
      key.name.utf8ByteSize ≤ db.platform.maxIdentifierLength := by
    intro key hkey
    obtain ⟨t', ht', hkey⟩ := List.mem_flatMap.1 hkey
    obtain ⟨start, hlinked, hnamed, hlimit⟩ := hfinalized t' ht'
    refine hlimit key.name ?_
    rw [Table.constraintNames_of_named hnamed]
    exact List.mem_append_left _ (List.mem_append_left _
      (List.mem_map_of_mem (hlinked.foreignKeys ▸ hkey)))
  intro t' ht'
  obtain ⟨start, hlinked, hnamed, hlimit⟩ := hfinalized t' ht'
  rw [Table.constraintNames_of_named hnamed] at hlimit
  refine ⟨fun key hkey => hkeys key (List.mem_flatMap.2 ⟨t', ht', hkey⟩), ?_, ?_⟩
  · intro unique hunique
    exact hlimit _ (List.mem_append_right _ (List.mem_map_of_mem (hlinked.uniques ▸ hunique)))
  · intro index hindex
    by_cases hshort : index.name.utf8ByteSize ≤ db.platform.maxIdentifierLength
    · exact Or.inl hshort
    · right
      have hnew : index ∉ start.indices := fun hold => hshort (hlimit _
        (List.mem_append_left _ (List.mem_append_right _ (List.mem_map_of_mem hold))))
      obtain ⟨hneeds, u, hu, key, hkey, hname⟩ := hlinked.synthesized hindex hnew
      refine ⟨hneeds, u, hu, key, hkey, hname, fun hown => ?_⟩
      rcases foreignKeyIndexName_cases key.name with hprefixed | hsame
      · exact hown.trans hprefixed
      · rw [hown, hsame] at hshort
        exact absurd (hkeys key (List.mem_flatMap.2 ⟨u, hu, hkey⟩)) hshort

/-- Titles that refer to their author, with the longest table name that leaves room for a key's tag
and number. -/
def longTitles : Database :=
  ({ name := "library", platform := .mysql } : Database).withTables
    [{ name := "author"
       columns := Columns.empty.push
         { name := "email", columnType := .varchar } (Columns.not_contains_empty "email") },
     { name := "translations_and_annotated_editions_of_collected_works_vols"
       columns := Columns.empty.push
         { name := "email", columnType := .varchar } (Columns.not_contains_empty "email")
       foreignKeys := [{ foreignTable := "author", references := [⟨"email", "email"⟩] }] }]

def resolvedTitles : Database × Except SchemaError Report :=
  (standard .tolerant).resolve "" longTitles

/-- No name is given, and still the index over the referenced column has a name of 79 bytes. -/
theorem identifierLimits_resolvedTitles :
    (∀ t ∈ longTitles.tables, ∀ name ∈ t.constraintNames,
      name.utf8ByteSize ≤ longTitles.platform.maxIdentifierLength) ∧
    resolvedTitles.2.toOption.isSome = true ∧
    longTitles.platform.maxIdentifierLength = 64 ∧
    resolvedTitles.1.tables.map (fun t => t.indices.map (·.name.utf8ByteSize)) = [[79], [64]] := by
  decide +kernel

/-- The resolved titles: that index is the only one whose name is too long. -/
theorem identifierLimits_resolve_titles : ∃ report,
    (standard .tolerant).resolve "" longTitles = (resolvedTitles.1, .ok report) ∧
    ∀ t ∈ resolvedTitles.1.tables,
      (∀ key ∈ t.foreignKeys, key.name.utf8ByteSize ≤ longTitles.platform.maxIdentifierLength) ∧
      (∀ unique ∈ t.uniques, unique.name.utf8ByteSize ≤ longTitles.platform.maxIdentifierLength) ∧
      ∀ index ∈ t.indices, index.name.utf8ByteSize ≤ longTitles.platform.maxIdentifierLength ∨
        (longTitles.platform.needsKeyIndices = true ∧
          ∃ u ∈ resolvedTitles.1.tables, ∃ key ∈ u.foreignKeys,
            SynthesizedName key.name index.name ∧
              (index.name = foreignKeyIndexName key.name → index.name = "FI_" ++ key.name)) := by
  have hok : resolvedTitles.2.toOption.isSome = true := by decide +kernel
  obtain ⟨report, hresolve⟩ := exists_report_of_isSome hok
  exact ⟨report, hresolve,
    identifierLimits_resolve hresolve (by decide +kernel) (by decide +kernel)⟩

end Resolver

end RelSchema
