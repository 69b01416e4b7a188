import RelSchema.Proofs.TableLinking
import RelSchema.Proofs.TableRevisions

/-!
# Finished tables

Finalizing brings a table into a form that the steps of finalizing leave alone: behaviors find the
columns they would add, external names and positions are the derived ones, no constraint lacks a
name, and the id method can be served. Linking keeps all of this. What it need not keep are the
indices over the suffixes of a primary key, since it replaces indices by name.
-/

namespace RelSchema

/-- The table with other columns. -/
def Table.withColumns (t : Table) (columns : Columns) : Table := { t with columns }

/-! ## Behaviors -/

namespace BehaviorRegistry

open Timestampable

/-- A new time column is never refused: its name is new, and it tells no rows apart. -/
theorem tryAddColumn_timestamp {t : Table} {name : String} (h : t.hasColumn name = false) :
    ∃ columns c, t.tryAddColumn { name, columnType := .timestamp } =
      (t.withColumns columns, .ok c) ∧ columns.names = t.columnNames ++ [name] := by
  have hnew : ¬ t.columns.contains name = true := by
    intro hcontains
    exact Bool.false_ne_true (h.symm.trans hcontains)
  unfold Table.tryAddColumn
  rw [dif_neg hnew]
  refine ⟨_, _, rfl, ?_⟩
  show (t.columns.list ++ [_]).map Column.name = _
  rw [List.map_append]
  exact congrArg (t.columnNames ++ [·]) (Table.name_named t _)

/-- Of the table only the columns change, and afterwards the column is there. -/
theorem ensureColumn_eq (t : Table) (name : String) : ∃ columns,
    ensureColumn t name = { state := t.withColumns columns } ∧
      ∀ n, n ∈ columns.names ↔ n ∈ t.columnNames ∨ n = name := by
  unfold ensureColumn
  split
  · rename_i hhas
    refine ⟨t.columns, rfl, fun n => ⟨Or.inl, ?_⟩⟩
    rintro (hmem | rfl)
    · exact hmem
    · exact Table.hasColumn_iff.1 hhas
  · rename_i hnew
    obtain ⟨columns, c, hadd, hnames⟩ := tryAddColumn_timestamp (Bool.eq_false_iff.2 hnew)
    rw [hadd]
    refine ⟨columns, rfl, fun n => ?_⟩
    rw [hnames, List.mem_append, List.mem_singleton]

theorem ensureColumn_of_mem {t : Table} {name : String} (h : name ∈ t.columnNames) :
    ensureColumn t name = { state := t } := if_pos (Table.hasColumn_iff.2 h)

theorem modify_behavior (b : Timestampable) (t : Table) : b.behavior.modify t =
    (ensureColumn t b.createColumn).andThen fun u => ensureColumn u b.updateColumn := by
  show (ensureColumn t _).andThen (fun u => (ensureColumn u _).andThen fun v => { state := v }) = _
  simp only [Walk.andThen_done]

/-- The behavior adds the columns that are missing and does nothing else. -/
theorem modify_behavior_eq (b : Timestampable) (t : Table) : ∃ columns,
    b.behavior.modify t = { state := t.withColumns columns } ∧
      ∀ n, n ∈ columns.names ↔
        n ∈ t.columnNames ∨ n = b.createColumn ∨ n = b.updateColumn := by
  obtain ⟨columns, hcreate, hnames⟩ := ensureColumn_eq t b.createColumn
  obtain ⟨columns', hupdate, hnames'⟩ := ensureColumn_eq (t.withColumns columns) b.updateColumn
  refine ⟨columns', ?_, fun n => ?_⟩
  · rw [modify_behavior, hcreate]
    exact hupdate
  · rw [hnames', ← or_assoc]
    exact or_congr_left (hnames n)

/-- A declaration of the built-in behavior, on a table that has the columns. -/
structure Applied (t : Table) (declaration : BehaviorDeclaration) : Prop where
  name : declaration.name = "timestampable"
  create : (ofParameters declaration.parameters).createColumn ∈ t.columnNames
  update : (ofParameters declaration.parameters).updateColumn ∈ t.columnNames

theorem applyOne_timestampable {declaration : BehaviorDeclaration}
    (h : declaration.name = "timestampable") (t : Table) : builtIn.applyOne t declaration =
      (ofParameters declaration.parameters).behavior.modify t := by
  have hfind : builtIn.find? declaration.name = if declaration.name = "timestampable" then
      some fun parameters => (ofParameters parameters).behavior else none :=
    KeyMap.find?_insert .empty _ _ _
  rw [applyOne, create?, hfind, if_pos h]
  rfl

theorem applyOne_builtIn {declaration : BehaviorDeclaration}
    (h : declaration.name = "timestampable") (t : Table) : ∃ columns,
    builtIn.applyOne t declaration = { state := t.withColumns columns } ∧
      (∀ n ∈ t.columnNames, n ∈ columns.names) ∧ Applied (t.withColumns columns) declaration := by
  obtain ⟨columns, hmodify, hnames⟩ := modify_behavior_eq (ofParameters declaration.parameters) t
  refine ⟨columns, ?_, fun n hn => (hnames n).2 (Or.inl hn), h, ?_, ?_⟩
  · rw [applyOne_timestampable h, hmodify]
  · exact (hnames _).2 (Or.inr (Or.inl rfl))
  · exact (hnames _).2 (Or.inr (Or.inr rfl))

theorem error_applyOne_builtIn_iff {t : Table} {declaration : BehaviorDeclaration} :
    (builtIn.applyOne t declaration).error = none ↔ declaration.name = "timestampable" := by
  constructor
  · intro h
    unfold applyOne at h
    split at h
    · cases h
    · rename_i behavior hcreate
      exact (create?_builtIn hcreate).1
  · intro h
    obtain ⟨columns, hwalk, -⟩ := applyOne_builtIn h t
    rw [hwalk]

theorem applyOne_of_applied {t : Table} {declaration : BehaviorDeclaration}
    (h : Applied t declaration) : builtIn.applyOne t declaration = { state := t } := by
  rw [applyOne_timestampable h.name, modify_behavior, ensureColumn_of_mem h.create]
  exact ensureColumn_of_mem h.update

/-- Whether the declared behaviors are all built in. -/
def Known (t : Table) : Prop := ∀ declaration ∈ t.behaviors, declaration.name = "timestampable"

instance (t : Table) : Decidable (Known t) :=
  inferInstanceAs (Decidable (∀ declaration ∈ t.behaviors, _))

/-- Columns are only added, so what one behavior has added is there after all others. -/
theorem along_applyOne {t : Table} {declarations : List BehaviorDeclaration}
    (h : ∀ declaration ∈ declarations, declaration.name = "timestampable") : ∃ columns,
    Walk.along builtIn.applyOne t declarations = { state := t.withColumns columns } ∧
      (∀ n ∈ t.columnNames, n ∈ columns.names) ∧
      ∀ declaration ∈ declarations, Applied (t.withColumns columns) declaration := by
  induction declarations generalizing t with
  | nil => exact ⟨t.columns, rfl, fun n hn => hn, fun _ hd => nomatch hd⟩
  | cons declaration rest ih =>
    obtain ⟨columns, hone, hsub, happlied⟩ := applyOne_builtIn (h declaration List.mem_cons_self) t
    -- the others start from the columns that the first one has added
    obtain ⟨columns', hrest, hsub', happlied'⟩ :=
      ih (t := t.withColumns columns) fun d hd => h d (List.mem_cons_of_mem _ hd)
    refine ⟨columns', ?_, fun n hn => hsub' n (hsub n hn), fun d hd => ?_⟩
    · rw [Walk.along_cons, hone]
      exact hrest
    · rcases List.mem_cons.1 hd with rfl | hd
      · exact ⟨happlied.name, hsub' _ happlied.create, hsub' _ happlied.update⟩
      · exact happlied' d hd

/-- Behaviors that are built in are never refused; they add the columns that they need. -/
theorem apply_builtIn {t : Table} (h : Known t) : ∃ columns,
    builtIn.apply t = { state := t.withColumns columns } ∧
      ∀ declaration ∈ t.behaviors, Applied (t.withColumns columns) declaration := by
  obtain ⟨columns, hwalk, -, happlied⟩ := along_applyOne h
  exact ⟨columns, hwalk, happlied⟩

theorem error_apply_builtIn_iff {t : Table} : (builtIn.apply t).error = none ↔ Known t := by
  have hstep : ∀ u : Table, ∀ declaration ∈ t.behaviors, True →
      ((builtIn.applyOne u declaration).error = none ↔ declaration.name = "timestampable") :=
    fun _ _ _ _ => error_applyOne_builtIn_iff
  exact Walk.error_along_eq_none_iff (fun _ _ _ => trivial) hstep trivial

theorem apply_of_applied {t : Table} (h : ∀ declaration ∈ t.behaviors, Applied t declaration) :
    builtIn.apply t = { state := t } := by
  have hwalk : ∀ declarations : List BehaviorDeclaration,
      (∀ declaration ∈ declarations, Applied t declaration) →
        Walk.along builtIn.applyOne t declarations = { state := t } := by
    intro declarations hall
    induction declarations with
    | nil => rfl
    | cons declaration rest ih =>
      rw [Walk.along_cons, applyOne_of_applied (hall declaration List.mem_cons_self)]
      exact ih fun d hd => hall d (List.mem_cons_of_mem _ hd)
  exact hwalk t.behaviors h

end BehaviorRegistry

/-! ## External names and positions -/

theorem Columns.getElem?_renumber (before : Nat) (l : List Column) (place : Nat) :
    (renumber before l)[place]? =
      l[place]?.map fun c => { c with position := before + place + 1 } := by
  induction l generalizing before place with
  | nil => rfl
  | cons c rest ih =>
    cases place with
    | zero => rfl
    | succ place =>
      rw [renumber, List.getElem?_cons_succ, List.getElem?_cons_succ, ih]
      have hplace : before + 1 + place + 1 = before + (place + 1) + 1 := by omega
      rw [hplace]

/-- The column with the external name that is derived from its name, unless it was given one. -/
def Column.derived (derive : String → String) (c : Column) : Column :=
  if c.explicitName then c else { c with externalName := derive c.name }

namespace Table

variable {t t' : Table} {strategy : NameStrategy}

theorem getElem?_deriveExternalNames (t : Table) (strategy : NameStrategy) (place : Nat) :
    (t.deriveExternalNames strategy).columns.list[place]? = t.columns.list[place]?.map fun c =>
      { c.derived (strategy.externalName t.effectiveNamingMethod) with position := place + 1 } := by
  show (Columns.renumber 0 (t.columns.list.map
    (Column.derived (strategy.externalName t.effectiveNamingMethod))))[place]? = _
  rw [Columns.getElem?_renumber, List.getElem?_map, Option.map_map, Nat.zero_add]
  rfl

/-- Whether positions count the places and external names are the derived ones. -/
def Derived (strategy : NameStrategy) (t : Table) : Prop :=
  ∀ place c, t.columns.list[place]? = some c → c.position = place + 1 ∧
    (c.explicitName = true ∨
      c.externalName = strategy.externalName t.effectiveNamingMethod c.name)

theorem derived_deriveExternalNames (t : Table) (strategy : NameStrategy) :
    (t.deriveExternalNames strategy).Derived strategy := by
  intro place c' hc'
  rw [getElem?_deriveExternalNames] at hc'
  obtain ⟨c, -, rfl⟩ := Option.map_eq_some_iff.1 hc'
  refine ⟨rfl, ?_⟩
  unfold Column.derived
  split
  · rename_i hexplicit
    exact Or.inl hexplicit
  · exact Or.inr rfl

theorem deriveExternalNames_of_derived (h : t.Derived strategy) :
    t.deriveExternalNames strategy = t := by
  have hlist : (t.deriveExternalNames strategy).columns.list = t.columns.list := by
    apply List.ext_getElem?
    intro place
    rw [getElem?_deriveExternalNames]
    cases hc : t.columns.list[place]? with
    | none => rfl
    | some c =>
      obtain ⟨hposition, hname⟩ := h place c hc
      have hderived : c.derived (strategy.externalName t.effectiveNamingMethod) = c := by
        unfold Column.derived
        split
        · rfl
        · rename_i hexplicit
          rw [← hname.resolve_left hexplicit]
      rw [Option.map_some, hderived, ← hposition]
  have hcolumns : (t.deriveExternalNames strategy).columns = t.columns :=
    Columns.eq_of_list_eq hlist
  show t.withColumns (t.deriveExternalNames strategy).columns = t
  rw [hcolumns]
  rfl

/-! ## Names of constraints -/

/-- Whether no constraint lacks a name. -/
structure ConstraintsNamed (t : Table) : Prop where
  foreignKeys : ∀ key ∈ t.foreignKeys, key.name ≠ ""
  indices : ∀ index ∈ t.indices, index.name ≠ ""
  uniques : ∀ index ∈ t.uniques, index.name ≠ ""

theorem fillNames_of_named {α : Type} [Named α] {source : NameSource} {kind : ConstraintKind}
    {position : Nat} {taken : List String} {l : List α} (h : ∀ a ∈ l, Named.name a ≠ "") :
    fillNames source kind position taken l = ⟨l, [], taken⟩ := by
  induction l generalizing position with
  | nil => rfl
  | cons a rest ih =>
    have hname : ¬ (Named.name a).isEmpty = true := by
      rw [String.isEmpty_iff]
      exact h a List.mem_cons_self
    rw [fillNames, if_neg hname, ih fun b hb => h b (List.mem_cons_of_mem _ hb)]

theorem named_fillNames {α : Type} [Named α] {source : NameSource}
    (hrename : ∀ (a : α) (name : String), Named.name (Named.rename a name) = name)
    (hsource : ∀ kind number, source.nameOf kind number ≠ "") (kind : ConstraintKind)
    (position : Nat) (taken : List String) (l : List α) :
    ∀ a ∈ (fillNames source kind position taken l).items, Named.name a ≠ "" := by
  induction l generalizing position taken with
  | nil => exact fun _ ha => nomatch ha
  | cons a rest ih =>
    intro b hb
    rw [fillNames] at hb
    split at hb
    · rcases List.mem_cons.1 hb with rfl | hb
      · rw [hrename]
        exact hsource kind _
      · exact ih _ _ b hb
    · rename_i hname
      rcases List.mem_cons.1 hb with rfl | hb
      · exact fun hempty => hname (String.isEmpty_iff.2 hempty)
      · exact ih _ _ b hb

theorem nameConstraints_of_named (h : t.ConstraintsNamed) (strategy : NameStrategy)
    (maxLength : Nat) : t.nameConstraints strategy maxLength = (t, []) := by
  unfold nameConstraints
  dsimp only
  rw [fillNames_of_named h.foreignKeys, fillNames_of_named h.indices, fillNames_of_named h.uniques]
  rfl

/-- Standard names end in a tag and a number, so they are not empty. -/
theorem standardName_ne_empty (scope : ConstraintScope) : NameStrategy.standardName scope ≠ "" := by
  intro hempty
  have htail := (String.append_eq_empty_iff.1 hempty).2
  unfold NameStrategy.standardTail at htail
  have hseparator := (String.append_eq_empty_iff.1
    (String.append_eq_empty_iff.1 (String.append_eq_empty_iff.1 htail).1).1).1
  exact absurd hseparator (by decide)

theorem constraintsNamed_nameConstraints (t : Table) (maxLength : Nat) :
    (t.nameConstraints .standard maxLength).1.ConstraintsNamed := by
  have hsource : ∀ kind number,
      (⟨.standard, t.name, maxLength⟩ : NameSource).nameOf kind number ≠ "" :=
    fun kind number => standardName_ne_empty _
  exact ⟨named_fillNames (fun _ _ => rfl) hsource _ _ _ _,
    named_fillNames (fun _ _ => rfl) hsource _ _ _ _,
    named_fillNames (fun _ _ => rfl) hsource _ _ _ _⟩

/-! ## Id methods -/

/-- Whether some column can serve the id method. -/
def IdServed (t : Table) : Prop :=
  (t.effectiveIdMethod == .native && !t.hasAutoIncrementColumn) = false

theorem normalizeIdMethod_of_idServed (h : t.IdServed) : t.normalizeIdMethod = (t, false) :=
  if_neg (Bool.eq_false_iff.1 h)

theorem idServed_normalizeIdMethod (t : Table) : t.normalizeIdMethod.1.IdServed := by
  unfold normalizeIdMethod
  split
  · rfl
  · rename_i hserved
    exact Bool.eq_false_iff.2 hserved

/-! ## Suffixes of the primary key -/

/-- Whether a table that asks for it has an index over each proper suffix of its primary key. -/
def SuffixesIndexed (t : Table) : Prop :=
  t.effectiveHeavyIndexing = true →
    ∀ suffix ∈ properSuffixes t.primaryKeyNames, ∃ index ∈ t.indices, index.columnNames = suffix

theorem any_columnNames_iff {suffix : List String} :
    t.indices.any (·.columnNames == suffix) = true ↔
      ∃ index ∈ t.indices, index.columnNames = suffix := by
  simp only [List.any_eq_true, beq_iff_eq]

theorem indexSuffixes_of_indexed {suffixes : List (List String)}
    (h : ∀ suffix ∈ suffixes, ∃ index ∈ t.indices, index.columnNames = suffix) :
    t.indexSuffixes suffixes = (t, []) := by
  induction suffixes with
  | nil => rfl
  | cons suffix rest ih =>
    have hone : t.indexSuffix suffix = (t, []) :=
      if_pos (any_columnNames_iff.2 (h suffix List.mem_cons_self))
    rw [indexSuffixes, hone]
    dsimp only
    rw [ih fun s hs => h s (List.mem_cons_of_mem _ hs)]
    rfl

/-- Nothing is added only where nothing is missing. -/
theorem indexed_of_indexSuffixes {suffixes : List (List String)}
    (h : (t.indexSuffixes suffixes).2 = []) :
    ∀ suffix ∈ suffixes, ∃ index ∈ t.indices, index.columnNames = suffix := by
  induction suffixes with
  | nil => exact fun _ hs => nomatch hs
  | cons suffix rest ih =>
    have happend : (t.indexSuffix suffix).2 ++ ((t.indexSuffix suffix).1.indexSuffixes rest).2 =
        [] := h
    obtain ⟨hone, hrest⟩ := List.append_eq_nil_iff.1 happend
    have hindexed : t.indices.any (·.columnNames == suffix) = true := by
      unfold indexSuffix at hone
      split at hone
      · rename_i hany
        exact hany
      · cases hone
    -- so the rest sees the same table, and the induction goes on with the same indices
    have htable : (t.indexSuffix suffix).1 = t := by
      rw [indexSuffix, if_pos hindexed]
    rw [htable] at hrest
    intro s hs
    rcases List.mem_cons.1 hs with rfl | hs
    · exact any_columnNames_iff.1 hindexed
    · exact ih hrest s hs

theorem indexSuffixes_eq_withIndices (t : Table) (suffixes : List (List String)) :
    ∃ indices, (t.indexSuffixes suffixes).1 = t.withIndices indices := by
  induction suffixes generalizing t with
  | nil => exact ⟨t.indices, rfl⟩
  | cons suffix rest ih =>
    have hone : ∃ indices, (t.indexSuffix suffix).1 = t.withIndices indices := by
      unfold indexSuffix
      split
      · exact ⟨t.indices, rfl⟩
      · exact ⟨_, rfl⟩
    obtain ⟨indices, hindices⟩ := hone
    obtain ⟨indices', hindices'⟩ := ih (t.indexSuffix suffix).1
    refine ⟨indices', hindices'.trans ?_⟩
    rw [hindices, withIndices_withIndices]

theorem heavilyIndexed_eq_withIndices (t : Table) :
    ∃ indices, t.heavilyIndexed = t.withIndices indices := by
  unfold heavilyIndexed
  split
  · exact indexSuffixes_eq_withIndices t _
  · exact ⟨t.indices, rfl⟩

/-! ## Finished tables -/

/-- Whether the table has what finalizing gives to it, with the built-in behaviors and the standard
names. -/
structure Finished (t : Table) : Prop where
  behaviors : ∀ declaration ∈ t.behaviors, BehaviorRegistry.Applied t declaration
  derived : t.Derived .standard
  named : t.ConstraintsNamed
  idServed : t.IdServed

/-- The steps after the behaviors change no column beyond its position and external name, and no
setting beyond the id method. -/
theorem keeps_complete (t : Table) (behaviorsApplied : Nat) (strategy : NameStrategy)
    (maxLength : Nat) :
    (t.complete behaviorsApplied strategy maxLength).1.columns =
        (t.deriveExternalNames strategy).columns ∧
      (t.complete behaviorsApplied strategy maxLength).1.behaviors = t.behaviors ∧
      (t.complete behaviorsApplied strategy maxLength).1.effectiveNamingMethod =
        t.effectiveNamingMethod ∧
      (t.complete behaviorsApplied strategy maxLength).1.effectiveHeavyIndexing =
        t.effectiveHeavyIndexing := by
  obtain ⟨indices, hindices⟩ := heavilyIndexed_eq_withIndices (t.deriveExternalNames strategy)
  rw [table_complete, hindices]
  unfold normalizeIdMethod
  split <;> exact ⟨rfl, rfl, rfl, rfl⟩

theorem columnNames_deriveExternalNames (t : Table) (strategy : NameStrategy) :
    (t.deriveExternalNames strategy).columnNames = t.columnNames := by
  have hderived : ∀ l : List Column, (l.map (Column.derived
      (strategy.externalName t.effectiveNamingMethod))).map (·.name) = l.map (·.name) := by
    intro l
    rw [List.map_map]
    refine List.map_congr_left fun c _ => ?_
    simp only [Function.comp, Column.derived]
    split <;> rfl
  show (Columns.renumber 0 _).map (·.name) = _
  rw [Columns.names_renumber]
  exact hderived t.columns.list

theorem named_normalizeIdMethod (h : t.ConstraintsNamed) :
    t.normalizeIdMethod.1.ConstraintsNamed := by
  unfold normalizeIdMethod
  split
  · exact ⟨h.foreignKeys, h.indices, h.uniques⟩
  · exact h

/-- **Finalizing finishes.** Once the behaviors are applied, the other steps do the rest. -/
theorem finished_complete (h : ∀ declaration ∈ t.behaviors, BehaviorRegistry.Applied t declaration)
    (behaviorsApplied maxLength : Nat) :
    (t.complete behaviorsApplied .standard maxLength).1.Finished := by
  obtain ⟨hcolumns, hbehaviors, hnaming, -⟩ :=
    keeps_complete t behaviorsApplied .standard maxLength
  have hnames : (t.complete behaviorsApplied .standard maxLength).1.columnNames = t.columnNames :=
    (congrArg Columns.names hcolumns).trans (columnNames_deriveExternalNames t .standard)
  constructor
  case behaviors =>
    intro declaration hd
    rw [hbehaviors] at hd
    obtain ⟨hname, hcreate, hupdate⟩ := h declaration hd
    exact ⟨hname, hnames ▸ hcreate, hnames ▸ hupdate⟩
  case derived =>
    have hderived := derived_deriveExternalNames t .standard
    unfold Derived at hderived ⊢
    rw [hcolumns, hnaming]
    exact hderived
  case named =>
    rw [table_complete]
    exact named_normalizeIdMethod (constraintsNamed_nameConstraints _ maxLength)
  case idServed =>
    rw [table_complete]
    exact idServed_normalizeIdMethod _

/-- **A finished table is left alone**, as long as the suffixes of its key are indexed. -/
theorem complete_of_finished (h : t.Finished) (hs : t.SuffixesIndexed)
    (behaviorsApplied maxLength : Nat) : t.complete behaviorsApplied .standard maxLength =
      (t, ⟨behaviorsApplied, [], [], false⟩) := by
  have hheavy : (if t.effectiveHeavyIndexing then t.indexHeavily else (t, [])) = (t, []) := by
    split
    · rename_i heffective
      exact indexSuffixes_of_indexed (hs heffective)
    · rfl
  unfold complete
  rw [deriveExternalNames_of_derived h.derived]
  dsimp only
  rw [hheavy]
  dsimp only
  rw [nameConstraints_of_named h.named, normalizeIdMethod_of_idServed h.idServed]
  rfl

/-- Where a suffix lacks its index, finalizing adds one and reports it. -/
theorem suffixesIndexed_of_complete (h : t.Finished) (behaviorsApplied maxLength : Nat)
    (hnone : (t.complete behaviorsApplied .standard maxLength).2.heavyIndices = []) :
    t.SuffixesIndexed := by
  intro heffective
  unfold complete at hnone
  rw [deriveExternalNames_of_derived h.derived] at hnone
  dsimp only at hnone
  rw [if_pos heffective] at hnone
  exact indexed_of_indexSuffixes (List.map_eq_nil_iff.1 hnone)

/-- Indices are all that finalizing may add to a finished table. -/
theorem outline_complete_of_finished (h : t.Finished) (behaviorsApplied maxLength : Nat) :
    (t.complete behaviorsApplied .standard maxLength).1.outline = t.outline := by
  obtain ⟨indices, hindices⟩ := heavilyIndexed_eq_withIndices t
  have hkeys : ((t.withIndices indices).nameConstraints .standard maxLength).1.foreignKeys =
      t.foreignKeys := by
    unfold nameConstraints
    dsimp only
    rw [fillNames_of_named (show ∀ a ∈ (t.withIndices indices).foreignKeys, Named.name a ≠ "" from
      h.named.foreignKeys)]
    rfl
  rw [table_complete, deriveExternalNames_of_derived h.derived, hindices]
  unfold normalizeIdMethod
  split
  · exact congrArg (fun keys => (t.name, keys, t.columnNames)) hkeys
  · exact congrArg (fun keys => (t.name, keys, t.columnNames)) hkeys

/-! ## Finalizing with the built-in behaviors -/

/-- The table as finalizing leaves it. -/
def finalized (maxLength : Nat) (t : Table) : Table := (t.finalize .builtIn .standard maxLength).1

theorem finalize_eq_ok_iff {maxLength : Nat} :
    (∃ outcome, (t.finalize .builtIn .standard maxLength).2 = .ok outcome) ↔
      BehaviorRegistry.Known t := by
  rw [← BehaviorRegistry.error_apply_builtIn_iff]
  unfold finalize
  dsimp only
  constructor
  · rintro ⟨outcome, h⟩
    split at h
    · cases h
    · rename_i hnone
      exact hnone
  · intro hnone
    rw [hnone]
    exact ⟨_, rfl⟩

/-- Finalizing is the behaviors, which are not refused, and then the other steps. -/
theorem finalize_of_known (h : BehaviorRegistry.Known t) (maxLength : Nat) : ∃ columns,
    (∀ declaration ∈ t.behaviors, BehaviorRegistry.Applied (t.withColumns columns) declaration) ∧
      t.finalize .builtIn .standard maxLength =
        (((t.withColumns columns).complete t.behaviors.length .standard maxLength).1,
          .ok ((t.withColumns columns).complete t.behaviors.length .standard maxLength).2) := by
  obtain ⟨columns, hwalk, happlied⟩ := BehaviorRegistry.apply_builtIn h
  refine ⟨columns, happlied, ?_⟩
  unfold finalize
  rw [hwalk]

theorem finished_finalized (h : BehaviorRegistry.Known t) (maxLength : Nat) :
    (t.finalized maxLength).Finished := by
  obtain ⟨columns, happlied, hfinalize⟩ := finalize_of_known h maxLength
  rw [finalized, hfinalize]
  exact finished_complete happlied t.behaviors.length maxLength

theorem effectiveHeavyIndexing_finalized (h : BehaviorRegistry.Known t) (maxLength : Nat) :
    (t.finalized maxLength).effectiveHeavyIndexing = t.effectiveHeavyIndexing := by
  obtain ⟨columns, -, hfinalize⟩ := finalize_of_known h maxLength
  rw [finalized, hfinalize]
  exact (keeps_complete (t.withColumns columns) t.behaviors.length _ maxLength).2.2.2

/-- Finalizing names foreign keys, but it adds none. -/
theorem length_foreignKeys_finalized (h : BehaviorRegistry.Known t) (maxLength : Nat) :
    (t.finalized maxLength).foreignKeys.length = t.foreignKeys.length := by
  obtain ⟨columns, -, hfinalize⟩ := finalize_of_known h maxLength
  obtain ⟨indices, hindices⟩ :=
    heavilyIndexed_eq_withIndices ((t.withColumns columns).deriveExternalNames .standard)
  have hkeys : ∀ u : Table, u.normalizeIdMethod.1.foreignKeys = u.foreignKeys := by
    intro u
    unfold normalizeIdMethod
    split <;> rfl
  rw [finalized, hfinalize, table_complete, hindices, hkeys]
  exact length_items_fillNames _ _ _ _ t.foreignKeys

theorem Finished.known (h : t.Finished) : BehaviorRegistry.Known t :=
  fun declaration hd => (h.behaviors declaration hd).name

theorem finalize_of_finished (h : t.Finished) (maxLength : Nat) :
    t.finalize .builtIn .standard maxLength =
      ((t.complete t.behaviors.length .standard maxLength).1,
        .ok (t.complete t.behaviors.length .standard maxLength).2) := by
  unfold finalize
  rw [BehaviorRegistry.apply_of_applied h.behaviors]

/-- With the suffixes of its key indexed, a finished table is finalized to itself. -/
theorem finalized_of_finished (h : t.Finished) (hs : t.SuffixesIndexed) (maxLength : Nat) :
    t.finalized maxLength = t := by
  rw [finalized, finalize_of_finished h, complete_of_finished h hs]

/-! ## Linking finished tables -/

/-- The declaration of a table, with the names of its indices, tells whether it is finished. -/
theorem Finished.of_declaration (h : t.Finished) (hd : t'.declaration = t.declaration)
    (hi : ∀ index ∈ t'.indices, index.name ≠ "") : t'.Finished := by
  have hbehaviors : t'.behaviors = t.behaviors := congrArg (·.2.behaviors) hd
  have hkeys : t'.foreignKeys = t.foreignKeys := congrArg (·.2.foreignKeys) hd
  have huniques : t'.uniques = t.uniques := congrArg (·.2.uniques) hd
  have hnames : t'.columnNames = t.columnNames := map_eq_of_declaration_eq (fun _ => rfl) hd
  have hnaming : t'.effectiveNamingMethod = t.effectiveNamingMethod :=
    congrArg (·.2.effectiveNamingMethod) hd
  constructor
  case behaviors =>
    intro declaration hmem
    rw [hbehaviors] at hmem
    obtain ⟨hname, hcreate, hupdate⟩ := h.behaviors declaration hmem
    exact ⟨hname, hnames ▸ hcreate, hnames ▸ hupdate⟩
  case derived =>
    intro place c' hc'
    have hbare : (t.columns.list.map Column.bare)[place]? = some c'.bare := by
      rw [← map_bare_eq_of_declaration_eq hd, List.getElem?_map, hc']
      rfl
    rw [List.getElem?_map] at hbare
    obtain ⟨c, hc, hsame⟩ := Option.map_eq_some_iff.1 hbare
    have hderived : c.bare.position = place + 1 ∧ (c.bare.explicitName = true ∨
        c.bare.externalName = NameStrategy.standard.externalName t.effectiveNamingMethod
          c.bare.name) := h.derived place c hc
    rw [hsame] at hderived
    rw [hnaming]
    exact hderived
  case named =>
    refine ⟨?_, hi, ?_⟩
    · rw [hkeys]
      exact h.named.foreignKeys
    · rw [huniques]
      exact h.named.uniques
  case idServed =>
    have hid : t'.effectiveIdMethod = t.effectiveIdMethod := congrArg (·.2.effectiveIdMethod) hd
    have hauto : t'.hasAutoIncrementColumn = t.hasAutoIncrementColumn := by
      have hmap : t'.columns.list.map (·.autoIncrement) = t.columns.list.map (·.autoIncrement) :=
        map_eq_of_declaration_eq (fun _ => rfl) hd
      have hany : ∀ l : List Column,
          l.any (·.autoIncrement) = (l.map (·.autoIncrement)).any id := by
        intro l
        rw [List.any_map]
        rfl
      rw [hasAutoIncrementColumn, hasAutoIncrementColumn, hany, hany, hmap]
    rw [IdServed, hid, hauto]
    exact h.idServed

theorem indices_linkEnds (db : Database) (id : TableId) (k : DeclaredKey) (t : Table)
    (ends : List KeyEnd) : (ends.foldl (linkEnd db id k) t).indices = t.indices := by
  induction ends generalizing t with
  | nil => rfl
  | cons e rest ih =>
    refine (ih _).trans ?_
    cases e with
    | target =>
      rw [linkEnd, addReferrer]
      split
      · split <;> rfl
      · rfl
    | localColumn column =>
      rw [linkEnd]
      split <;> rfl
    | foreignColumn column =>
      rw [linkEnd]
      split <;> rfl

/-- The indices that linking adds have names. -/
theorem named_indices_linkAll (db : Database) (id : TableId) (keys : List DeclaredKey)
    (h : ∀ index ∈ t.indices, index.name ≠ "") :
    ∀ index ∈ (t.linkAll db id keys).indices, index.name ≠ "" := by
  induction keys generalizing t with
  | nil => exact h
  | cons k rest ih =>
    refine ih (t := t.linkKey db id k) fun index hindex => ?_
    unfold linkKey at hindex
    split at hindex
    · rcases Worklist.name_ne_empty_of_mem_run hindex with hold | hnew
      · exact h index (indices_linkEnds db id k t _ ▸ hold)
      · exact hnew
    · exact h index (indices_linkEnds db id k t _ ▸ hindex)

theorem Finished.linkAll (h : t.Finished) (db : Database) (id : TableId) (keys : List DeclaredKey) :
    (t.linkAll db id keys).Finished :=
  h.of_declaration (declaration_linkAll db id keys t)
    (named_indices_linkAll db id keys h.named.indices)

end Table

end RelSchema
