import RelSchema.Proofs.ColumnRegistry
import RelSchema.Proofs.FinalizeAdditions

/-!
# Heavy indexing

A table that asks for it gets an index over each proper suffix of its primary key. The suffixes are
visited from the longest to the shortest, and each gets an index unless one is over exactly its
columns. Since no two suffixes are equally long, what was added for one of them never counts for
another, so the added indices are those for the suffixes that had none
(`Table.indexSuffixes_eq`). Neither behaviors nor external names change the key, so finalizing
leaves all suffixes indexed, and a second time it finds nothing to add
(`Table.finalize_heavyIndexing`).
-/

namespace RelSchema

/-! ## Proper suffixes -/

section Suffixes

variable {α : Type} {suffix whole : List α}

/-- Whether `suffix` ends `whole` and is neither empty nor all of it. -/
def ProperSuffix (suffix whole : List α) : Prop :=
  suffix ≠ [] ∧ suffix ≠ whole ∧ suffix <:+ whole

theorem ProperSuffix.length_lt (h : ProperSuffix suffix whole) : suffix.length < whole.length :=
  Nat.lt_of_le_of_ne h.2.2.length_le fun hlength => h.2.1 (h.2.2.eq_of_length hlength)

/-- A proper suffix of a longer list is all of the rest or a proper suffix of it. -/
theorem properSuffix_cons_iff {a : α} {rest : List α} :
    ProperSuffix suffix (a :: rest) ↔ rest ≠ [] ∧ (suffix = rest ∨ ProperSuffix suffix rest) := by
  constructor
  · rintro ⟨hne, hall, hsuffix⟩
    have hrest : suffix <:+ rest := (List.suffix_cons_iff.1 hsuffix).resolve_left hall
    refine ⟨?_, ?_⟩
    · rintro rfl
      exact hne (List.suffix_nil.1 hrest)
    · by_cases hsame : suffix = rest
      · exact Or.inl hsame
      · exact Or.inr ⟨hne, hsame, hrest⟩
  · rintro ⟨hrest, rfl | ⟨hne, -, hsuffix⟩⟩
    · exact ⟨hrest, (List.cons_ne_self a suffix).symm, List.suffix_cons a suffix⟩
    · refine ⟨hne, ?_, hsuffix.trans (List.suffix_cons a rest)⟩
      rintro rfl
      exact absurd hsuffix.length_le (by simp)

theorem mem_properSuffixes_iff : suffix ∈ properSuffixes whole ↔ ProperSuffix suffix whole := by
  induction whole with
  | nil =>
    refine iff_of_false List.not_mem_nil ?_
    rintro ⟨hne, -, hsuffix⟩
    exact hne (List.suffix_nil.1 hsuffix)
  | cons a rest ih =>
    rw [properSuffix_cons_iff, ← ih, properSuffixes]
    cases rest with
    | nil => simp
    | cons b rest => simp

theorem pairwise_properSuffixes (whole : List α) :
    (properSuffixes whole).Pairwise fun longer shorter => shorter.length < longer.length := by
  induction whole with
  | nil => exact .nil
  | cons a rest ih =>
    rw [properSuffixes]
    split
    · exact .nil
    · exact .cons (fun suffix hsuffix => (mem_properSuffixes_iff.1 hsuffix).length_lt) ih

theorem nodup_properSuffixes (whole : List α) : (properSuffixes whole).Nodup :=
  (pairwise_properSuffixes whole).imp fun hlt heq => Nat.ne_of_gt hlt (congrArg List.length heq)

end Suffixes

namespace Table

variable {t t' : Table}

/-! ## What indexing suffixes adds -/

/-- Added are unnamed indices for the suffixes that no index is over, and no others. -/
theorem indexSuffixes_eq {suffixes : List (List String)} (h : suffixes.Nodup) :
    (t.indexSuffixes suffixes).2 =
      (suffixes.filter fun suffix => !t.indices.any (·.columnNames == suffix)).map
        fun suffix => ⟨t.name, "", suffix, .heavyIndexing⟩ := by
  induction suffixes generalizing t with
  | nil => rfl
  | cons suffix rest ih =>
    obtain ⟨hnew, hnodup⟩ := List.nodup_cons.1 h
    have hadded : (t.indexSuffixes (suffix :: rest)).2 =
        (t.indexSuffix suffix).2 ++ ((t.indexSuffix suffix).1.indexSuffixes rest).2 := rfl
    rw [hadded, ih hnodup, indexSuffix]
    split
    · rename_i hhas
      rw [List.filter_cons_of_neg (by simpa using hhas)]
      rfl
    · rename_i hmissing
      rw [List.filter_cons_of_pos (by simpa using hmissing)]
      -- the index that was added is over none of the others
      have hothers : ∀ other ∈ rest, (t.addIndex (.on suffix)).indices.any
          (·.columnNames == other) = t.indices.any (·.columnNames == other) := by
        intro other hother
        have hne : suffix ≠ other := fun heq => hnew (heq ▸ hother)
        have hcolumns : ({ Index.on suffix with unique := false } : Index).columnNames = suffix :=
          Index.columnNames_on suffix
        rw [addIndex, List.any_append, List.any_cons, hcolumns, beq_false_of_ne hne, List.any_nil,
          Bool.or_false, Bool.or_false]
      rw [List.filter_congr fun other hother => congrArg (!·) (hothers other hother)]
      rfl

/-! ## What leaves the primary key -/

theorem primaryKeyNames_addColumn {c : Column} (h : t.addColumn c = .ok t') :
    t'.primaryKeyNames = t.primaryKeyNames ++ if c.primaryKey then [c.name] else [] := by
  obtain ⟨-, hnew, rfl⟩ := addColumn_eq_ok h
  have hkey : (t.named c).primaryKey = c.primaryKey := by
    unfold named
    split <;> rfl
  have hlist : (t.columns.push (t.named c) hnew).list =
      t.columns.list ++ [{ t.named c with position := t.columns.list.length + 1 }] := rfl
  rw [primaryKeyNames, primaryKey, hlist, List.filter_append, List.map_append,
    List.filter_singleton, hkey]
  cases c.primaryKey with
  | false => rfl
  | true => exact congrArg (t.primaryKeyNames ++ [·]) (t.name_named c)

/-- The built-in behavior adds columns outside of the key. -/
theorem primaryKeyNames_apply_builtIn (t : Table) :
    (BehaviorRegistry.builtIn.apply t).state.primaryKeyNames = t.primaryKeyNames := by
  have hensure : ∀ (u : Table) (name : String),
      (Timestampable.ensureColumn u name).state.primaryKeyNames = u.primaryKeyNames := by
    intro u name
    rcases BehaviorRegistry.state_ensureColumn_cases u name with hsame | hadd
    · rw [hsame]
    · exact (primaryKeyNames_addColumn hadd).trans (List.append_nil _)
  refine Walk.along_invariant (P := fun u : Table => u.primaryKeyNames = t.primaryKeyNames)
    (fun u declaration _ hu => ?_) rfl
  unfold BehaviorRegistry.applyOne
  split
  · exact hu
  · rename_i behavior hcreate
    rw [(BehaviorRegistry.create?_builtIn hcreate).2]
    exact Walk.along_invariant (P := fun u : Table => u.primaryKeyNames = t.primaryKeyNames)
      (fun v name _ hv => (hensure v name).trans hv) hu

theorem primaryKeyNames_deriveExternalNames (t : Table) (strategy : NameStrategy) :
    (t.deriveExternalNames strategy).primaryKeyNames = t.primaryKeyNames := by
  have hderived : ∀ (derive : String → String) (before : Nat) (l : List Column),
      ((Columns.renumber before (l.map (Column.derived derive))).filter (·.primaryKey)).map
        (·.name) = (l.filter (·.primaryKey)).map (·.name) := by
    intro derive before l
    induction l generalizing before with
    | nil => rfl
    | cons c rest ih =>
      have hkey : (c.derived derive).primaryKey = c.primaryKey ∧
          (c.derived derive).name = c.name := by
        unfold Column.derived
        split <;> exact ⟨rfl, rfl⟩
      simp only [List.map_cons, Columns.renumber, List.filter_cons, hkey.1]
      split
      · simp only [List.map_cons, ih, hkey.2]
      · exact ih _
  exact hderived (strategy.externalName t.effectiveNamingMethod) 0 t.columns.list

/-! ## Finalizing a table -/

/-- A table that is finalized gets its behaviors, and then the other steps. -/
theorem complete_of_finalize {registry : BehaviorRegistry} {strategy : NameStrategy}
    {maxLength : Nat} {outcome : FinalizeOutcome}
    (h : t.finalize registry strategy maxLength = (t', .ok outcome)) :
    (registry.apply t).state.complete t.behaviors.length strategy maxLength = (t', outcome) := by
  unfold finalize at h
  dsimp only at h
  split at h
  · cases h
  · cases h
    rfl

/-- The added indices are over the suffixes that no index was over, in the order of the suffixes. -/
theorem heavilyAdded_eq (h : t.effectiveHeavyIndexing = true) (strategy : NameStrategy) :
    (t.deriveExternalNames strategy).heavilyAdded =
      ((properSuffixes t.primaryKeyNames).filter
        fun suffix => !t.indices.any (·.columnNames == suffix)).map
          fun suffix => ⟨t.name, "", suffix, .heavyIndexing⟩ := by
  have hheavy : (t.deriveExternalNames strategy).effectiveHeavyIndexing = true := h
  rw [heavilyAdded, if_pos hheavy, indexHeavily, primaryKeyNames_deriveExternalNames,
    indexSuffixes_eq (nodup_properSuffixes _)]
  rfl

/-- What heavy indexing makes of `t`: the entries report the indices that `t'` has and `t` had not. -/
structure SuffixesReported (t t' : Table) (entries : List SynthesizedIndex) : Prop where
  primaryKeyNames : t'.primaryKeyNames = t.primaryKeyNames
  indexed : ∀ suffix, ProperSuffix suffix t.primaryKeyNames →
    ∃ index ∈ t'.indices, index.columnNames = suffix
  missing : ∀ suffix, suffix ∈ entries.map (·.columns) ↔
    ProperSuffix suffix t.primaryKeyNames ∧ ∀ index ∈ t.indices, index.columnNames ≠ suffix
  longestFirst : (entries.map (·.columns)).Pairwise
    fun longer shorter => shorter.length < longer.length
  /-- Behind the earlier indices each entry has its own, with its name and over its columns. -/
  appended : ∃ old, t'.indices = old ++ entries.map (·.index) ∧
    List.Forall₂ NamedFrom t.indices old
  described : ∀ entry ∈ entries,
    entry.table = t.name ∧ entry.name ≠ "" ∧ entry.reason = .heavyIndexing

/-- The steps after the behaviors index all suffixes. -/
theorem suffixesReported_complete (h : t.effectiveHeavyIndexing = true)
    (hbehaviors : ∀ declaration ∈ t.behaviors, BehaviorRegistry.Applied t declaration)
    (behaviorsApplied maxLength : Nat) :
    t.SuffixesReported (t.complete behaviorsApplied .standard maxLength).1
      (t.complete behaviorsApplied .standard maxLength).2.heavyIndices := by
  obtain ⟨⟨old, hindices, hold⟩, hcolumns⟩ :=
    exists_indices_complete t behaviorsApplied .standard maxLength
  rw [heavilyAdded_eq h, List.map_map] at hcolumns
  have hmissing : (t.complete behaviorsApplied .standard maxLength).2.heavyIndices.map (·.columns) =
      (properSuffixes t.primaryKeyNames).filter
        fun suffix => !t.indices.any (·.columnNames == suffix) :=
    hcolumns.trans (List.map_id _)
  constructor
  case primaryKeyNames =>
    rw [primaryKeyNames, primaryKey, (keeps_complete t behaviorsApplied .standard maxLength).1]
    exact primaryKeyNames_deriveExternalNames t .standard
  case indexed =>
    intro suffix hproper
    rw [hindices]
    by_cases hhas : ∃ index ∈ t.indices, index.columnNames = suffix
    · -- the index may have got a name, but it is over the same columns
      have hsame := map_eq_of_namedFrom (f := Index.columnNames) (fun _ _ => rfl) hold
      obtain ⟨index, hindex, rfl⟩ := hhas
      obtain ⟨named, hnamed, hnamedColumns⟩ :=
        List.mem_map.1 (hsame ▸ List.mem_map_of_mem hindex)
      exact ⟨named, List.mem_append_left _ hnamed, hnamedColumns⟩
    · have hadded : suffix ∈ (t.complete behaviorsApplied .standard maxLength).2.heavyIndices.map
          (·.columns) := by
        rw [hmissing, List.mem_filter, mem_properSuffixes_iff]
        exact ⟨hproper, by simpa using hhas⟩
      obtain ⟨entry, hentry, rfl⟩ := List.mem_map.1 hadded
      exact ⟨entry.index, List.mem_append_right _ (List.mem_map_of_mem hentry),
        entry.columnNames_index⟩
  case missing =>
    intro suffix
    rw [hmissing, List.mem_filter, mem_properSuffixes_iff]
    simp
  case longestFirst =>
    rw [hmissing]
    exact (pairwise_properSuffixes _).filter _
  case appended => exact ⟨old, hindices, hold⟩
  case described =>
    intro entry hentry
    have hindex : entry.index ∈ (t.complete behaviorsApplied .standard maxLength).1.indices :=
      hindices ▸ List.mem_append_right _ (List.mem_map_of_mem hentry)
    refine ⟨table_of_mem_heavyIndices hentry, ?_, ?_⟩
    · exact (finished_complete hbehaviors behaviorsApplied maxLength).named.indices _ hindex
    · rw [(outcome_complete t behaviorsApplied .standard maxLength).1, heavilyAdded_eq h,
        List.map_map] at hentry
      obtain ⟨suffix, -, rfl⟩ := List.mem_map.1 hentry
      obtain ⟨name, hname⟩ := withIndexName_eq _ ⟨t.name, "", suffix, .heavyIndexing⟩
      exact congrArg (·.reason) hname

/-- **Heavy indexing.** After a table that asks for it was finalized, each proper suffix of its
primary key has an index over exactly its columns. Those that had none before have got theirs,
behind all other indices and from the longest suffix to the shortest, and these are reported under
their names; finalizing again adds and names nothing. -/
theorem finalize_heavyIndexing {maxLength : Nat} {outcome : FinalizeOutcome}
    (h : t.finalize .builtIn .standard maxLength = (t', .ok outcome))
    (hheavy : t.effectiveHeavyIndexing = true) :
    t.SuffixesReported t' outcome.heavyIndices ∧
      ∀ maxLength', ∃ outcome', t'.finalize .builtIn .standard maxLength' = (t', .ok outcome') ∧
        outcome'.heavyIndices = [] ∧ outcome'.names = [] := by
  have hknown : BehaviorRegistry.Known t := finalize_eq_ok_iff.1 ⟨outcome, congrArg Prod.snd h⟩
  obtain ⟨columns, hwalk, happlied⟩ := BehaviorRegistry.apply_builtIn hknown
  have hkey := primaryKeyNames_apply_builtIn t
  have hcomplete := complete_of_finalize h
  rw [hwalk] at hkey hcomplete
  have hadded := suffixesReported_complete (t := t.withColumns columns) hheavy happlied
    t.behaviors.length maxLength
  have hfinished := finished_complete (t := t.withColumns columns) happlied t.behaviors.length
    maxLength
  rw [hcomplete] at hadded hfinished
  have hreported : t.SuffixesReported t' outcome.heavyIndices :=
    { hadded with
      primaryKeyNames := hadded.primaryKeyNames.trans hkey
      indexed := hkey ▸ hadded.indexed
      missing := hkey ▸ hadded.missing }
  refine ⟨hreported, fun maxLength' => ?_⟩
  have hindexed : t'.SuffixesIndexed := fun _ suffix hsuffix =>
    hreported.indexed suffix (mem_properSuffixes_iff.1 (hreported.primaryKeyNames ▸ hsuffix))
  refine ⟨⟨t'.behaviors.length, [], [], false⟩, ?_, rfl, rfl⟩
  rw [finalize_of_finished hfinished, complete_of_finished hfinished hindexed]

/-- A table with a key of three columns. The name that the first added index would get is in use. -/
def pages : Table where
  name := "page"
  heavyIndexing := some true
  columns := ((Columns.empty.push
    { name := "volume", columnType := .integer, primaryKey := true }
      (Columns.not_contains_empty "volume")).push
    { name := "chapter", columnType := .integer, primaryKey := true } (by decide +kernel)).push
    { name := "number", columnType := .integer, primaryKey := true } (by decide +kernel)
  indices := [.on ["number", "volume"], { name := "page_I_3", columns := [⟨"chapter", none⟩] }]

/-- The added indices stand behind the others and are reported under the names that they got. -/
theorem finalize_heavyIndexing_pages : ∃ outcome,
    pages.finalize .builtIn .standard 64 = (pages.finalized 64, .ok outcome) ∧
    pages.effectiveHeavyIndexing = true ∧
    outcome.heavyIndices.map (fun entry => (entry.name, entry.columns)) =
      [("page_I_4", ["chapter", "number"]), ("page_I_5", ["number"])] ∧
    (pages.finalized 64).indices.map (·.name) =
      ["page_I_1", "page_I_3", "page_I_4", "page_I_5"] ∧
    pages.SuffixesReported (pages.finalized 64) outcome.heavyIndices ∧
    ∀ maxLength', ∃ outcome', (pages.finalized 64).finalize .builtIn .standard maxLength' =
      (pages.finalized 64, .ok outcome') ∧ outcome'.heavyIndices = [] ∧ outcome'.names = [] := by
  have hreports : (pages.finalize .builtIn .standard 64).2.toOption.map (fun outcome =>
      outcome.heavyIndices.map fun entry => (entry.name, entry.columns)) =
        some [("page_I_4", ["chapter", "number"]), ("page_I_5", ["number"])] := by
    decide +kernel
  cases hsecond : (pages.finalize .builtIn .standard 64).2 with
  | error e =>
    rw [hsecond] at hreports
    cases hreports
  | ok outcome =>
    rw [hsecond] at hreports
    have hfinalize : pages.finalize .builtIn .standard 64 = (pages.finalized 64, .ok outcome) :=
      Prod.ext rfl hsecond
    have hheavy : pages.effectiveHeavyIndexing = true := by decide +kernel
    exact ⟨outcome, hfinalize, hheavy, Option.some.inj hreports, by decide +kernel,
      finalize_heavyIndexing hfinalize hheavy⟩

end Table

end RelSchema
