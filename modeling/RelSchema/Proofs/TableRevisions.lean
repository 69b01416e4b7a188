import RelSchema.Finalization
import RelSchema.Proofs.ColumnLookup

/-!
# Revisions of a table

Editing a table, applying behaviors to it and finalizing it never touch the edges that linking
recorded there: the table keeps its referrers, each column keeps its own or is new, and the foreign
keys keep their places and what they refer to. A table that comes out of such changes is a revision
of the one that went in.
-/

namespace RelSchema

/-- What a foreign key refers to and by which columns; its name is no part of that. -/
def ForeignKey.reference (key : ForeignKey) : String × List ColumnPair :=
  (key.foreignTable, key.references)

/-! ## Lists of columns and names -/

theorem Columns.mem_renumber {before : Nat} {l : List Column} {c' : Column}
    (h : c' ∈ renumber before l) : ∃ c ∈ l, ∃ position, c' = { c with position } := by
  induction l generalizing before with
  | nil => cases h
  | cons c rest ih =>
    rcases List.mem_cons.1 h with rfl | h
    · exact ⟨c, List.mem_cons_self, _, rfl⟩
    · obtain ⟨d, hd, hposition⟩ := ih h
      exact ⟨d, List.mem_cons_of_mem _ hd, hposition⟩

/-- Naming the unnamed entities of a collection changes nothing that does not look at names. -/
theorem map_items_fillNames {α β : Type} [Named α] {f : α → β}
    (hf : ∀ a name, f (Named.rename a name) = f a) (source : NameSource) (kind : ConstraintKind)
    (position : Nat) (taken : List String) (l : List α) :
    (fillNames source kind position taken l).items.map f = l.map f := by
  induction l generalizing position taken with
  | nil => rfl
  | cons a rest ih =>
    rw [fillNames]
    split
    · rw [List.map_cons, List.map_cons, hf, ih]
    · rw [List.map_cons, List.map_cons, ih]

theorem length_items_fillNames {α : Type} [Named α] (source : NameSource) (kind : ConstraintKind)
    (position : Nat) (taken : List String) (l : List α) :
    (fillNames source kind position taken l).items.length = l.length := by
  have hmap := map_items_fillNames (f := fun _ : α => ()) (fun _ _ => rfl) source kind position
    taken l
  rw [← List.length_map (fun _ : α => ()), hmap, List.length_map]

namespace Table

/-! ## Edits -/

/-- A change that a program makes to a table. A column that is added is a new one, on which no edges
were recorded yet. -/
inductive Edit : Table → Table → Prop where
  | addColumn {t t' : Table} {c : Column} : c.referrers = [] → t.addColumn c = .ok t' → Edit t t'
  | removeColumn {t t' : Table} {name : String} {c : Column} :
      t.removeColumn name = .ok (c, t') → Edit t t'
  | addForeignKey (t : Table) (key : ForeignKey) : Edit t (t.addForeignKey key)
  | addIndex (t : Table) (index : Index) : Edit t (t.addIndex index)
  | addUnique (t : Table) (index : Index) : Edit t (t.addUnique index)

/-- Whether `t'` came out of changes to `t` that do not touch edges. -/
structure Revises (t t' : Table) : Prop where
  name : t'.name = t.name
  referrers : t'.referrers = t.referrers
  columns : ∀ c' ∈ t'.columns.list, c'.referrers = [] ∨
    ∃ c ∈ t.columns.list, c.name = c'.name ∧ c.referrers = c'.referrers
  keys : t.foreignKeys.map (·.reference) <+: t'.foreignKeys.map (·.reference)

theorem Revises.refl (t : Table) : t.Revises t :=
  ⟨rfl, rfl, fun c hc => Or.inr ⟨c, hc, rfl, rfl⟩, List.prefix_rfl⟩

theorem Revises.trans {t u v : Table} (h : t.Revises u) (h' : u.Revises v) : t.Revises v where
  name := h'.name.trans h.name
  referrers := h'.referrers.trans h.referrers
  columns c' hc' := by
    rcases h'.columns c' hc' with hnone | ⟨c, hc, hname, hsame⟩
    · exact Or.inl hnone
    · rcases h.columns c hc with hnone | ⟨d, hd, hname', hsame'⟩
      · exact Or.inl (hsame ▸ hnone)
      · exact Or.inr ⟨d, hd, hname'.trans hname, hsame'.trans hsame⟩
  keys := h.keys.trans h'.keys

/-- The keys of a table keep their places. -/
theorem Revises.getElem?_foreignKeys {t t' : Table} (h : t.Revises t') {position : Nat}
    {key : ForeignKey} (hkey : t.foreignKeys[position]? = some key) :
    ∃ key', t'.foreignKeys[position]? = some key' ∧ key'.reference = key.reference := by
  obtain ⟨rest, hrest⟩ := h.keys
  have hmap : (t'.foreignKeys.map (·.reference))[position]? = some key.reference := by
    rw [← hrest, List.getElem?_append_left, List.getElem?_map, hkey]
    · rfl
    · rw [List.length_map]
      exact (List.getElem?_eq_some_iff.1 hkey).1
  rw [List.getElem?_map] at hmap
  exact Option.map_eq_some_iff.1 hmap

/-- A change that leaves the name, the referrers, the columns and the keys alone. -/
theorem revises_of_eq {t t' : Table} (hname : t'.name = t.name)
    (hreferrers : t'.referrers = t.referrers) (hcolumns : t'.columns = t.columns)
    (hkeys : t'.foreignKeys = t.foreignKeys) : t.Revises t' :=
  ⟨hname, hreferrers, fun c hc => Or.inr ⟨c, hcolumns ▸ hc, rfl, rfl⟩, hkeys ▸ List.prefix_rfl⟩

theorem revises_addColumn {t t' : Table} {c : Column} (hc : c.referrers = [])
    (h : t.addColumn c = .ok t') : t.Revises t' := by
  obtain ⟨-, hnew, rfl⟩ := addColumn_eq_ok h
  refine ⟨rfl, rfl, ?_, List.prefix_rfl⟩
  intro c' hc'
  -- the columns before stand as they were, and the new one brings no edges
  rcases List.mem_append.1 hc' with hold | hnew
  · exact Or.inr ⟨c', hold, rfl, rfl⟩
  · refine Or.inl ?_
    rw [List.mem_singleton.1 hnew]
    show (t.named c).referrers = []
    unfold named
    split <;> exact hc

theorem revises_removeColumn {t t' : Table} {name : String} {c : Column}
    (h : t.removeColumn name = .ok (c, t')) : t.Revises t' := by
  obtain ⟨removed, columns, hremove, rfl⟩ := removeColumn_eq_ok h
  refine ⟨rfl, rfl, ?_, List.prefix_rfl⟩
  intro c' hc'
  unfold Columns.remove? at hremove
  split at hremove
  · cases hremove
  · split at hremove
    · cases hremove
    · cases hremove
      obtain ⟨d, hd, position, rfl⟩ := Columns.mem_renumber hc'
      exact Or.inr ⟨d, (List.eraseIdx_sublist _ _).subset hd, rfl, rfl⟩

theorem Edit.revises {t t' : Table} (h : t.Edit t') : t.Revises t' := by
  cases h with
  | addColumn hc h => exact revises_addColumn hc h
  | removeColumn h => exact revises_removeColumn h
  | addForeignKey key =>
    refine ⟨rfl, rfl, fun c hc => Or.inr ⟨c, hc, rfl, rfl⟩, ?_⟩
    show _ <+: (t.foreignKeys ++ [key]).map _
    rw [List.map_append]
    exact List.prefix_append _ _
  | addIndex index => exact revises_of_eq rfl rfl rfl rfl
  | addUnique index => exact revises_of_eq rfl rfl rfl rfl

/-! ## Finalizing -/

theorem revises_refreshExternalNames (t : Table) (derive : NamingMethod → String → String) :
    t.Revises (t.refreshExternalNames derive) := by
  refine ⟨rfl, rfl, ?_, List.prefix_rfl⟩
  intro c' hc'
  obtain ⟨c, hc, position, rfl⟩ := Columns.mem_renumber hc'
  obtain ⟨d, hd, rfl⟩ := List.mem_map.1 hc
  refine Or.inr ⟨d, hd, ?_⟩
  dsimp only
  split <;> exact ⟨rfl, rfl⟩

theorem revises_inherit (t : Table) (defaults : Defaults) : t.Revises (t.inherit defaults) :=
  (revises_of_eq rfl rfl rfl rfl : t.Revises { t with inherited := defaults }).trans
    (revises_refreshExternalNames _ _)

theorem revises_indexSuffixes (t : Table) (suffixes : List (List String)) :
    t.Revises (t.indexSuffixes suffixes).1 := by
  induction suffixes generalizing t with
  | nil => exact .refl t
  | cons suffix rest ih =>
    have hone : t.Revises (t.indexSuffix suffix).1 := by
      unfold indexSuffix
      split
      · exact .refl t
      · exact (Edit.addIndex t (.on suffix)).revises
    exact hone.trans (ih _)

theorem revises_nameConstraints (t : Table) (strategy : NameStrategy) (maxLength : Nat) :
    t.Revises (t.nameConstraints strategy maxLength).1 := by
  refine ⟨rfl, rfl, fun c hc => Or.inr ⟨c, hc, rfl, rfl⟩, ?_⟩
  refine ⟨[], ?_⟩
  rw [List.append_nil]
  exact (map_items_fillNames (fun _ _ => rfl) _ _ _ _ _).symm

theorem revises_normalizeIdMethod (t : Table) : t.Revises t.normalizeIdMethod.1 := by
  unfold normalizeIdMethod
  split
  · exact revises_of_eq rfl rfl rfl rfl
  · exact .refl t

/-- The table with the suffixes of its primary key indexed, if it asks for that. -/
def heavilyIndexed (t : Table) : Table :=
  if t.effectiveHeavyIndexing then t.indexHeavily.1 else t

/-- The steps after the behaviors, one after the other. -/
theorem table_complete (t : Table) (behaviorsApplied : Nat) (strategy : NameStrategy)
    (maxLength : Nat) : (t.complete behaviorsApplied strategy maxLength).1 =
      ((t.deriveExternalNames strategy).heavilyIndexed.nameConstraints
        strategy maxLength).1.normalizeIdMethod.1 := by
  unfold complete heavilyIndexed
  dsimp only
  split <;> rfl

theorem revises_complete (t : Table) (behaviorsApplied : Nat) (strategy : NameStrategy)
    (maxLength : Nat) : t.Revises (t.complete behaviorsApplied strategy maxLength).1 := by
  have hheavy : ∀ t : Table, t.Revises t.heavilyIndexed := by
    intro t
    unfold heavilyIndexed
    split
    · exact revises_indexSuffixes t _
    · exact .refl t
  rw [table_complete]
  exact (((revises_refreshExternalNames t _).trans (hheavy _)).trans
    (revises_nameConstraints _ _ _)).trans (revises_normalizeIdMethod _)

end Table

namespace BehaviorRegistry

/-- Whether no behavior of a registry touches edges, also where it is refused half-way. -/
def Revising (registry : BehaviorRegistry) : Prop :=
  ∀ (t : Table) (declaration : BehaviorDeclaration),
    t.Revises (registry.applyOne t declaration).state

theorem Revising.apply {registry : BehaviorRegistry} (h : registry.Revising) (t : Table) :
    t.Revises (registry.apply t).state :=
  Walk.along_invariant (P := t.Revises) (fun u declaration _ hu => hu.trans (h u declaration))
    (.refl t)

/-- A time column is added, or the table stays: it has the column, or it refuses it. -/
theorem state_ensureColumn_cases (t : Table) (name : String) :
    (Timestampable.ensureColumn t name).state = t ∨
      t.addColumn { name, columnType := .timestamp } =
        .ok (Timestampable.ensureColumn t name).state := by
  unfold Timestampable.ensureColumn
  split
  · exact Or.inl rfl
  · rcases t.tryAddColumn_cases { name, columnType := .timestamp } with
      ⟨e, hrefused⟩ | ⟨-, hnew, hadded⟩
    · rw [hrefused]
      exact Or.inl rfl
    · rw [Table.addColumn_eq_ok_iff, hadded]
      exact Or.inr ⟨_, rfl⟩

theorem revises_ensureColumn (t : Table) (name : String) :
    t.Revises (Timestampable.ensureColumn t name).state := by
  rcases state_ensureColumn_cases t name with hsame | hadd
  · rw [hsame]
    exact .refl t
  · exact Table.revises_addColumn rfl hadd

/-- The one behavior that is built in adds new columns at most. -/
theorem create?_builtIn {declaration : BehaviorDeclaration} {behavior : Behavior}
    (h : builtIn.create? declaration = some behavior) : declaration.name = "timestampable" ∧
      behavior = (Timestampable.ofParameters declaration.parameters).behavior := by
  obtain ⟨maker, hmaker, rfl⟩ := Option.map_eq_some_iff.1 h
  have hfind : builtIn.find? declaration.name = if declaration.name = "timestampable" then
      some fun parameters => (Timestampable.ofParameters parameters).behavior else none :=
    KeyMap.find?_insert .empty _ _ _
  rw [hfind] at hmaker
  split at hmaker
  · rename_i hname
    cases hmaker
    exact ⟨hname, rfl⟩
  · cases hmaker

theorem revising_builtIn : builtIn.Revising := by
  intro t declaration
  unfold applyOne
  split
  · exact .refl t
  · rename_i behavior hcreate
    rw [(create?_builtIn hcreate).2]
    exact Walk.along_invariant (P := t.Revises)
      (fun u name _ hu => hu.trans (revises_ensureColumn u name)) (.refl t)

end BehaviorRegistry

/-- Finalizing a table leaves a revision, also when a behavior is refused. -/
theorem Table.revises_finalize {registry : BehaviorRegistry} (h : registry.Revising) (t : Table)
    (strategy : NameStrategy) (maxLength : Nat) :
    t.Revises (t.finalize registry strategy maxLength).1 := by
  unfold finalize
  dsimp only
  split
  · exact h.apply t
  · exact (h.apply t).trans (revises_complete _ t.behaviors.length _ _)

end RelSchema
