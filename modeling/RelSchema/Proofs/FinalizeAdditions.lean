import RelSchema.Proofs.IndexAdditions

/-!
# What finalizing a table reports

The indices over the suffixes of a primary key are added without names, named together with the
other constraints, and only then reported, under the name of the first index over their columns.
Since a suffix is indexed only where no index is over its columns yet, this is the very index that
was added (`Table.addedIndices_complete`). Each unnamed constraint gets one name, so the names that
are assigned are those of the unnamed constraints and of the added indices
(`Table.length_names_complete`).
-/

namespace RelSchema

/-! ## Filling in names -/

section Filling

variable {α : Type} [Named α]

/-- The number of entities of a collection that have no name. -/
def unnamedCount (l : List α) : Nat := l.countP fun a => (Named.name a).isEmpty

theorem unnamedCount_append (l l' : List α) :
    unnamedCount (l ++ l') = unnamedCount l + unnamedCount l' := List.countP_append ..

theorem length_assigned_fillNames (source : NameSource) (kind : ConstraintKind) (position : Nat)
    (taken : List String) (l : List α) :
    (fillNames source kind position taken l).assigned.length = unnamedCount l := by
  induction l generalizing position taken with
  | nil => rfl
  | cons a rest ih =>
    rw [fillNames, unnamedCount, List.countP_cons]
    split
    · rw [List.length_cons, ih]
      rfl
    · exact ih _ _

/-- The names of two collections are filled in one after the other. -/
theorem items_fillNames_append (source : NameSource) (kind : ConstraintKind) (position : Nat)
    (taken : List String) (l l' : List α) :
    ∃ taken', (fillNames source kind position taken (l ++ l')).items =
      (fillNames source kind position taken l).items ++
        (fillNames source kind (position + l.length) taken' l').items := by
  induction l generalizing position taken with
  | nil => exact ⟨taken, rfl⟩
  | cons a rest ih =>
    rw [List.cons_append, fillNames, fillNames, List.length_cons]
    have hposition : position + (rest.length + 1) = position + 1 + rest.length := by omega
    split
    · obtain ⟨taken', htaken⟩ := ih (position + 1) (source.generate kind taken position :: taken)
      refine ⟨taken', ?_⟩
      dsimp only
      rw [htaken, hposition, List.cons_append]
    · obtain ⟨taken', htaken⟩ := ih (position + 1) taken
      refine ⟨taken', ?_⟩
      dsimp only
      rw [htaken, hposition, List.cons_append]

/-- Whether an entity is as it was, or was unnamed and has got a name. -/
def NamedFrom (a b : α) : Prop :=
  b = a ∨ (Named.name a).isEmpty = true ∧ ∃ name, b = Named.rename a name

/-- Filling in names leaves every entity in its place. -/
theorem forall₂_items_fillNames (source : NameSource) (kind : ConstraintKind) (position : Nat)
    (taken : List String) (l : List α) :
    List.Forall₂ NamedFrom l (fillNames source kind position taken l).items := by
  induction l generalizing position taken with
  | nil => exact .nil
  | cons a rest ih =>
    rw [fillNames]
    split
    · rename_i hunnamed
      exact .cons (Or.inr ⟨hunnamed, _, rfl⟩) (ih _ _)
    · exact .cons (Or.inl rfl) (ih _ _)

theorem exists_namedFrom_of_mem {l l' : List α} (h : List.Forall₂ NamedFrom l l') {b : α}
    (hb : b ∈ l') : ∃ a ∈ l, NamedFrom a b := by
  obtain ⟨place, hplace, rfl⟩ := List.mem_iff_getElem.1 hb
  have hold : place < l.length := h.length_eq ▸ hplace
  exact ⟨l[place], List.getElem_mem hold, h.get hold hplace⟩

/-- What does not look at names is told of both collections alike. -/
theorem map_eq_of_namedFrom {β : Type} {f : α → β} (hf : ∀ a name, f (Named.rename a name) = f a)
    {l l' : List α} (h : List.Forall₂ NamedFrom l l') : l'.map f = l.map f := by
  induction h with
  | nil => rfl
  | cons hnamed _ ih =>
    rw [List.map_cons, List.map_cons, ih]
    rcases hnamed with rfl | ⟨-, name, rfl⟩
    · rfl
    · rw [hf]

end Filling

namespace Table

variable {t : Table}

/-- The number of constraints of a table that have no name. -/
def unnamedConstraints (t : Table) : Nat :=
  unnamedCount t.foreignKeys + unnamedCount t.indices + unnamedCount t.uniques

theorem length_nameConstraints (t : Table) (strategy : NameStrategy) (maxLength : Nat) :
    (t.nameConstraints strategy maxLength).2.length = t.unnamedConstraints := by
  unfold nameConstraints
  simp only [List.length_append, length_assigned_fillNames]
  rfl

/-- Naming leaves the columns of an index, so it was there before. -/
theorem hadIndex_of_mem_named {indices : List Index}
    (h : List.Forall₂ NamedFrom t.indices indices) {index : Index} (hindex : index ∈ indices) :
    t.HadIndex index := by
  rcases exists_namedFrom_of_mem h hindex with ⟨old, hold, rfl | ⟨hunnamed, name, rfl⟩⟩
  · exact ⟨_, hold, rfl, Or.inl rfl⟩
  · exact ⟨old, hold, rfl, Or.inr (String.isEmpty_iff.1 hunnamed)⟩

/-! ## Suffixes of the primary key -/

/-- What indexing suffixes reports: unnamed indices of the table, over columns that no index was
over, and no two over the same. -/
structure SuffixesAdded (t : Table) (added : List SynthesizedIndex) : Prop where
  distinct : (added.map (·.columns)).Nodup
  table : ∀ entry ∈ added, entry.table = t.name
  unnamed : ∀ entry ∈ added, entry.name = ""
  fresh : ∀ entry ∈ added, ∀ index ∈ t.indices, index.columnNames ≠ entry.columns

theorem index_on (table : String) (suffix : List String) (reason : SynthesisReason) :
    (⟨table, "", suffix, reason⟩ : SynthesizedIndex).index =
      { Index.on suffix with unique := false } := by
  simp [SynthesizedIndex.index, Index.on, Index.resetSizes, Function.comp_def]

theorem indices_indexSuffixes (t : Table) (suffixes : List (List String)) :
    (t.indexSuffixes suffixes).1.indices =
      t.indices ++ (t.indexSuffixes suffixes).2.map (·.index) := by
  induction suffixes generalizing t with
  | nil => exact (List.append_nil _).symm
  | cons suffix rest ih =>
    have hone : (t.indexSuffix suffix).1.indices =
        t.indices ++ (t.indexSuffix suffix).2.map (·.index) := by
      unfold indexSuffix
      split
      · exact (List.append_nil _).symm
      · rw [List.map_singleton, index_on]
        rfl
    show ((t.indexSuffix suffix).1.indexSuffixes rest).1.indices = _
    rw [ih, hone, List.append_assoc, ← List.map_append]
    rfl

theorem suffixesAdded_indexSuffixes (t : Table) (suffixes : List (List String)) :
    t.SuffixesAdded (t.indexSuffixes suffixes).2 := by
  induction suffixes generalizing t with
  | nil => exact ⟨List.nodup_nil, by rintro _ ⟨⟩, by rintro _ ⟨⟩, by rintro _ ⟨⟩⟩
  | cons suffix rest ih =>
    have hrest := ih (t.indexSuffix suffix).1
    have hadded : (t.indexSuffixes (suffix :: rest)).2 =
        (t.indexSuffix suffix).2 ++ ((t.indexSuffix suffix).1.indexSuffixes rest).2 := rfl
    rw [hadded]
    unfold indexSuffix at hrest ⊢
    split
    · rename_i hhas
      rw [if_pos hhas] at hrest
      exact hrest
    · rename_i hnew
      rw [if_neg hnew] at hrest
      have hmem : ∀ index ∈ t.indices, index ∈ (t.addIndex (.on suffix)).indices :=
        fun index hindex => List.mem_append_left _ hindex
      constructor
      case distinct =>
        refine List.nodup_cons.2 ⟨fun hsuffix => ?_, hrest.distinct⟩
        -- the rest looks at a table that has an index over this suffix
        obtain ⟨entry, hentry, hcolumns⟩ := List.mem_map.1 hsuffix
        refine hrest.fresh entry hentry _ (List.mem_append_right _ (List.mem_singleton_self _)) ?_
        exact (Index.columnNames_on suffix).trans hcolumns.symm
      case table => exact List.forall_mem_cons.2 ⟨rfl, hrest.table⟩
      case unnamed => exact List.forall_mem_cons.2 ⟨rfl, hrest.unnamed⟩
      case fresh =>
        refine List.forall_mem_cons.2 ⟨fun index hindex hcolumns => hnew ?_, fun entry hentry index
          hindex => hrest.fresh entry hentry index (hmem index hindex)⟩
        exact any_columnNames_iff.2 ⟨index, hindex, hcolumns⟩

/-- The indices over suffixes that the table gets, if it asks for them. -/
def heavilyAdded (t : Table) : List SynthesizedIndex :=
  if t.effectiveHeavyIndexing then t.indexHeavily.2 else []

theorem indices_heavilyIndexed (t : Table) :
    t.heavilyIndexed.indices = t.indices ++ t.heavilyAdded.map (·.index) := by
  unfold heavilyIndexed heavilyAdded
  split
  · exact indices_indexSuffixes t _
  · exact (List.append_nil _).symm

theorem suffixesAdded_heavilyAdded (t : Table) : t.SuffixesAdded t.heavilyAdded := by
  unfold heavilyAdded
  split
  · exact suffixesAdded_indexSuffixes t _
  · exact suffixesAdded_indexSuffixes t []

/-! ## Reporting them by name -/

/-- Of indices over distinct columns, the first one over the columns of one is this one. -/
theorem find?_columnNames {l : List Index} (h : (l.map (·.columnNames)).Nodup) {index : Index}
    (hindex : index ∈ l) : l.find? (·.columnNames == index.columnNames) = some index := by
  cases hfound : l.find? (·.columnNames == index.columnNames) with
  | none => simpa using List.find?_eq_none.1 hfound index hindex
  | some other =>
    have hcolumns : other.columnNames = index.columnNames := by
      simpa using List.find?_some hfound
    rw [List.inj_on_of_nodup_map h (List.mem_of_find?_eq_some hfound) hindex hcolumns]

/-- When the added indices have got their names, the reports name them. -/
theorem map_withIndexName {u : Table} {old new : List Index} {added : List SynthesizedIndex}
    (hindices : u.indices = old ++ new)
    (hcolumns : new.map (·.columnNames) = added.map (·.columns))
    (hdistinct : (added.map (·.columns)).Nodup)
    (hfresh : ∀ entry ∈ added, ∀ index ∈ old, index.columnNames ≠ entry.columns)
    (hplain : ∀ index ∈ new, ∃ entry : SynthesizedIndex, index = entry.index) :
    (added.map u.withIndexName).map (·.index) = new := by
  have hfind : ∀ entry ∈ added, ∀ index ∈ new, index.columnNames = entry.columns →
      (u.withIndexName entry).index = index := by
    intro entry hentry index hindex hsame
    have hold : old.find? (·.columnNames == entry.columns) = none := by
      simpa using hfresh entry hentry
    have hnew : new.find? (·.columnNames == entry.columns) = some index := by
      rw [← hsame]
      exact find?_columnNames (hcolumns ▸ hdistinct) hindex
    obtain ⟨plain, rfl⟩ := hplain index hindex
    rw [SynthesizedIndex.columnNames_index] at hsame
    unfold withIndexName
    rw [hindices, List.find?_append, hold, Option.none_or, hnew, SynthesizedIndex.index, ← hsame]
    rfl
  have hlength : new.length = added.length := by
    simpa using congrArg List.length hcolumns
  apply List.ext_getElem
  · simp [hlength]
  · intro place h h'
    simp only [List.length_map] at h
    have hsame : new[place].columnNames = added[place].columns := by
      have hplace := congrArg (·[place]?) hcolumns
      simpa [h, h'] using hplace
    simp only [List.getElem_map]
    exact hfind _ (List.getElem_mem h) _ (List.getElem_mem h') hsame

/-- The indices of a table after the steps that follow the behaviors. -/
theorem indices_complete (t : Table) (behaviorsApplied : Nat) (strategy : NameStrategy)
    (maxLength : Nat) : (t.complete behaviorsApplied strategy maxLength).1.indices =
      ((t.deriveExternalNames strategy).heavilyIndexed.nameConstraints
        strategy maxLength).1.indices := by
  rw [table_complete]
  unfold normalizeIdMethod
  split <;> rfl

/-- What the steps after the behaviors report. -/
theorem outcome_complete (t : Table) (behaviorsApplied : Nat) (strategy : NameStrategy)
    (maxLength : Nat) :
    (t.complete behaviorsApplied strategy maxLength).2.heavyIndices =
      (t.deriveExternalNames strategy).heavilyAdded.map ((t.deriveExternalNames
        strategy).heavilyIndexed.nameConstraints strategy maxLength).1.withIndexName ∧
    (t.complete behaviorsApplied strategy maxLength).2.names =
      ((t.deriveExternalNames strategy).heavilyIndexed.nameConstraints strategy maxLength).2 := by
  unfold complete heavilyIndexed heavilyAdded
  dsimp only
  split <;> exact ⟨rfl, rfl⟩

/-- Of a report only the name is looked up. -/
theorem withIndexName_eq (t : Table) (entry : SynthesizedIndex) :
    ∃ name, t.withIndexName entry = { entry with name } := by
  unfold withIndexName
  split
  · exact ⟨_, rfl⟩
  · exact ⟨entry.name, rfl⟩

/-- Every report is about the table that was finalized. -/
theorem table_of_mem_heavyIndices {behaviorsApplied maxLength : Nat} {strategy : NameStrategy}
    {entry : SynthesizedIndex}
    (h : entry ∈ (t.complete behaviorsApplied strategy maxLength).2.heavyIndices) :
    entry.table = t.name := by
  rw [(outcome_complete t behaviorsApplied strategy maxLength).1] at h
  obtain ⟨unnamed, hunnamed, rfl⟩ := List.mem_map.1 h
  obtain ⟨name, hname⟩ := withIndexName_eq _ unnamed
  rw [hname]
  exact (suffixesAdded_heavilyAdded (t.deriveExternalNames strategy)).table unnamed hunnamed

/-- Naming goes through the indices that were there, and then through the added ones. -/
theorem exists_indices_named (u : Table) (strategy : NameStrategy) (maxLength : Nat) :
    ∃ old new, (u.heavilyIndexed.nameConstraints strategy maxLength).1.indices = old ++ new ∧
      List.Forall₂ NamedFrom u.indices old ∧
      new.map (·.columnNames) = u.heavilyAdded.map (·.columns) ∧
      ∀ index ∈ new, ∃ entry : SynthesizedIndex, index = entry.index := by
  obtain ⟨source, taken, hsource⟩ : ∃ source taken,
      (u.heavilyIndexed.nameConstraints strategy maxLength).1.indices =
        (fillNames source .index 0 taken u.heavilyIndexed.indices).items := ⟨_, _, rfl⟩
  obtain ⟨taken', htaken⟩ := items_fillNames_append source .index 0 taken u.indices
    (u.heavilyAdded.map (·.index))
  rw [indices_heavilyIndexed, htaken] at hsource
  refine ⟨_, _, hsource, forall₂_items_fillNames _ _ _ _ _, ?_, ?_⟩
  · rw [map_items_fillNames (fun _ _ => rfl), List.map_map]
    exact List.map_congr_left fun entry _ => entry.columnNames_index
  · intro index hindex
    obtain ⟨added, hadded, hnamed⟩ :=
      exists_namedFrom_of_mem (forall₂_items_fillNames _ _ _ _ _) hindex
    obtain ⟨entry, -, rfl⟩ := List.mem_map.1 hadded
    rcases hnamed with rfl | ⟨-, name, rfl⟩
    · exact ⟨entry, rfl⟩
    · exact ⟨{ entry with name }, rfl⟩

/-- Behind the indices that were there stand the reported ones. -/
theorem exists_indices_complete (t : Table) (behaviorsApplied : Nat) (strategy : NameStrategy)
    (maxLength : Nat) :
    (∃ old, (t.complete behaviorsApplied strategy maxLength).1.indices =
        old ++ (t.complete behaviorsApplied strategy maxLength).2.heavyIndices.map (·.index) ∧
      List.Forall₂ NamedFrom t.indices old) ∧
    (t.complete behaviorsApplied strategy maxLength).2.heavyIndices.map (·.columns) =
      (t.deriveExternalNames strategy).heavilyAdded.map (·.columns) := by
  -- deriving external names leaves the indices
  obtain ⟨u, hu, hsame⟩ : ∃ u, t.deriveExternalNames strategy = u ∧ u.indices = t.indices :=
    ⟨_, rfl, rfl⟩
  have hadded := u.suffixesAdded_heavilyAdded
  obtain ⟨old, new, hindices, hold, hcolumns, hplain⟩ := exists_indices_named u strategy maxLength
  have hfresh : ∀ entry ∈ u.heavilyAdded, ∀ index ∈ old, index.columnNames ≠ entry.columns := by
    intro entry hentry index hindex hsameColumns
    obtain ⟨first, hfirst, hfirstColumns, -⟩ := hadIndex_of_mem_named hold hindex
    exact hadded.fresh entry hentry first hfirst (hfirstColumns.trans hsameColumns)
  have hreport := map_withIndexName hindices hcolumns hadded.distinct hfresh hplain
  have hafter := indices_complete t behaviorsApplied strategy maxLength
  rw [hu, hindices] at hafter
  rw [(outcome_complete t behaviorsApplied strategy maxLength).1, hu]
  refine ⟨⟨old, hafter.trans (congrArg (old ++ ·) hreport.symm), hsame ▸ hold⟩, ?_⟩
  rw [List.map_map]
  refine List.map_congr_left fun entry _ => ?_
  obtain ⟨name, hname⟩ := withIndexName_eq _ entry
  exact congrArg (·.columns) hname

/-- **Finalizing reports what it adds**: the steps after the behaviors add the reported indices and
no others, in this order. -/
theorem addedIndices_complete (t : Table) (behaviorsApplied : Nat) (strategy : NameStrategy)
    (maxLength : Nat) : t.addedIndices (t.complete behaviorsApplied strategy maxLength).1 =
      (t.complete behaviorsApplied strategy maxLength).2.heavyIndices.map (·.index) := by
  obtain ⟨⟨old, hindices, hold⟩, hcolumns⟩ :=
    exists_indices_complete t behaviorsApplied strategy maxLength
  refine addedIndices_eq hindices (fun index hindex => hadIndex_of_mem_named hold hindex) ?_
  rintro _ hindex ⟨first, hfirst, hsame, -⟩
  obtain ⟨entry, hentry, rfl⟩ := List.mem_map.1 hindex
  rw [SynthesizedIndex.columnNames_index] at hsame
  have hmem : entry.columns ∈ (t.deriveExternalNames strategy).heavilyAdded.map (·.columns) :=
    hcolumns ▸ List.mem_map_of_mem hentry
  obtain ⟨unnamed, hunnamed, hunnamedColumns⟩ := List.mem_map.1 hmem
  exact (suffixesAdded_heavilyAdded (t.deriveExternalNames strategy)).fresh unnamed hunnamed first
    hfirst (hsame.trans hunnamedColumns.symm)

/-- The added indices are unnamed at first, so they count with the constraints that are. -/
theorem unnamedConstraints_heavilyIndexed (t : Table) :
    t.heavilyIndexed.unnamedConstraints = t.unnamedConstraints + t.heavilyAdded.length := by
  have hall : unnamedCount (t.heavilyAdded.map (·.index)) = t.heavilyAdded.length := by
    rw [unnamedCount, List.countP_map, List.countP_eq_length]
    intro entry hentry
    exact String.isEmpty_iff.2 (t.suffixesAdded_heavilyAdded.unnamed entry hentry)
  have hindices := indices_heavilyIndexed t
  obtain ⟨indices, heq⟩ := heavilyIndexed_eq_withIndices t
  rw [heq, withIndices_indices] at hindices
  have hcount : (t.withIndices indices).unnamedConstraints =
      unnamedCount t.foreignKeys + unnamedCount indices + unnamedCount t.uniques := rfl
  rw [heq, hcount, hindices, unnamedCount_append, hall, unnamedConstraints]
  omega

/-- **Finalizing counts the names that it assigns**: one for each constraint that had none, and one
for each index that it adds. -/
theorem length_names_complete (t : Table) (behaviorsApplied : Nat) (strategy : NameStrategy)
    (maxLength : Nat) : (t.complete behaviorsApplied strategy maxLength).2.names.length =
      t.unnamedConstraints +
        (t.addedIndices (t.complete behaviorsApplied strategy maxLength).1).length := by
  obtain ⟨hheavy, hnames⟩ := outcome_complete t behaviorsApplied strategy maxLength
  rw [addedIndices_complete, hheavy, hnames, length_nameConstraints,
    unnamedConstraints_heavilyIndexed, List.length_map, List.length_map]
  rfl

end Table

end RelSchema
