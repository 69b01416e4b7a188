import Mathlib.Logic.Relation
import RelSchema.Proofs.FinishedTables

/-!
# The registry of a table's columns

A table is built by adding and removing columns, by settings that change how external names are
derived, by its behaviors and by finalizing. Two facts about its columns are kept by each single
change (`Table.ColumnStep.sound`): the positions count the places, and at most one column tells the
rows apart. Everything else follows from these two and from how lookups are entered. Each lookup
lists the places of a key with the last one in front (`lookup_placesBy_eq_some_iff`), so a key that
several columns share finds the one with the highest position, also after the column that used to
be found was removed.
-/

namespace RelSchema

/-! ## Places by a key -/

namespace ColumnLookups

/-- The places of the columns under a key of each, the last place first. -/
def placesBy (key : Column → String) (place : Nat) : List Column → PlaceLookup
  | [] => []
  | c :: rest => placesBy key (place + 1) rest ++ [(key c, place)]

/-- The three lookups are one and the same construction, over three keys. -/
theorem enterAll_eq_placesBy (lookups : ColumnLookups) (place : Nat) (columns : List Column) :
    lookups.enterAll place columns =
      ⟨placesBy (·.name) place columns ++ lookups.byName,
        placesBy (fun c => Text.lower c.name) place columns ++ lookups.byLowerName,
        placesBy (·.externalName) place columns ++ lookups.byExternalName⟩ := by
  induction columns generalizing lookups place with
  | nil => rfl
  | cons c rest ih =>
    rw [enterAll, ih]
    simp [enter, placesBy]

theorem ofList_eq_placesBy (columns : List Column) : ofList columns =
    ⟨placesBy (·.name) 0 columns, placesBy (fun c => Text.lower c.name) 0 columns,
      placesBy (·.externalName) 0 columns⟩ := by
  rw [ofList, enterAll_eq_placesBy]
  simp

variable {key : Column → String} {place : Nat} {columns : List Column} {k : String}

theorem lookup_placesBy_cons (key : Column → String) (place : Nat) (c : Column)
    (rest : List Column) (k : String) : (placesBy key place (c :: rest)).lookup k =
      ((placesBy key (place + 1) rest).lookup k).or (if k = key c then some place else none) := by
  rw [placesBy, List.lookup_append, KeyMap.lookup_cons_eq]
  rfl

theorem lookup_placesBy_eq_none_iff :
    (placesBy key place columns).lookup k = none ↔ ∀ c ∈ columns, key c ≠ k := by
  induction columns generalizing place with
  | nil => simp [placesBy]
  | cons c rest ih =>
    rw [lookup_placesBy_cons, Option.or_eq_none_iff, ih, List.forall_mem_cons, and_comm]
    apply and_congr_left
    intro _
    by_cases hkey : k = key c
    · simp [hkey]
    · simp [hkey, Ne.symm hkey]

/-- Whether a place is the last one where a column has this key. -/
def LastPlace (key : Column → String) (k : String) (columns : List Column) (place : Nat) : Prop :=
  ∃ c, columns[place]? = some c ∧ key c = k ∧
    ∀ other d, columns[other]? = some d → key d = k → other ≤ place

/-- In a longer list, the last place moves with the columns behind the first one. -/
theorem LastPlace.cons {rest : List Column} (h : LastPlace key k rest place) (c : Column) :
    LastPlace key k (c :: rest) (place + 1) := by
  obtain ⟨found, hfound, hkey, hlast⟩ := h
  refine ⟨found, by simpa using hfound, hkey, ?_⟩
  intro other d hd hdkey
  cases other with
  | zero => exact Nat.zero_le _
  | succ other => exact Nat.succ_le_succ (hlast other d (by simpa using hd) hdkey)

theorem lastPlace_unique {first second : Nat} (h : LastPlace key k columns first)
    (h' : LastPlace key k columns second) : first = second := by
  obtain ⟨c, hc, hckey, hlast⟩ := h
  obtain ⟨d, hd, hdkey, hlast'⟩ := h'
  exact Nat.le_antisymm (hlast' first c hc hckey) (hlast second d hd hdkey)

/-- **The last one is found.** What a lookup gives for a key is the last place with this key. -/
theorem lastPlace_of_lookup {found : Nat} (h : (placesBy key place columns).lookup k = some found) :
    ∃ offset, found = place + offset ∧ LastPlace key k columns offset := by
  induction columns generalizing place with
  | nil => cases h
  | cons c rest ih =>
    rw [lookup_placesBy_cons, Option.or_eq_some_iff] at h
    rcases h with hlater | ⟨hnone, hfirst⟩
    · obtain ⟨offset, rfl, hlast⟩ := ih hlater
      exact ⟨offset + 1, by omega, hlast.cons c⟩
    · -- no later column has the key, so the first one is the last
      split at hfirst
      · rename_i hkey
        cases hfirst
        refine ⟨0, rfl, c, by simp, hkey.symm, ?_⟩
        intro other d hd hdkey
        cases other with
        | zero => exact Nat.le_refl 0
        | succ other =>
          have hmem : d ∈ rest := List.mem_of_getElem? (by simpa using hd)
          exact absurd hdkey (lookup_placesBy_eq_none_iff.1 hnone d hmem)
      · cases hfirst

theorem lookup_placesBy_eq_some_iff {found : Nat} :
    (placesBy key 0 columns).lookup k = some found ↔ LastPlace key k columns found := by
  constructor
  · intro h
    obtain ⟨offset, hoffset, hlast⟩ := lastPlace_of_lookup h
    rw [Nat.zero_add] at hoffset
    rwa [hoffset]
  · intro hlast
    cases hl : (placesBy key 0 columns).lookup k with
    | none =>
      obtain ⟨c, hc, hkey, -⟩ := hlast
      exact absurd hkey (lookup_placesBy_eq_none_iff.1 hl c (List.mem_of_getElem? hc))
    | some other =>
      obtain ⟨offset, hoffset, hlast'⟩ := lastPlace_of_lookup hl
      rw [Nat.zero_add] at hoffset
      rw [hoffset, lastPlace_unique hlast hlast']

end ColumnLookups

namespace Columns

variable {cs : Columns} {c : Column} {key : Column → String} {k : String}

/-! ## The columns that lookups find -/

/-- Whether the positions count the places, and at most one column tells the rows apart. -/
structure Sound (cs : Columns) : Prop where
  positions : cs.list.map (·.position) = List.range' 1 cs.list.length
  inheritance : cs.list.countP (·.inheritance) ≤ 1

/-- Whether `c` is, of the columns with this key, the one with the highest position. -/
structure Highest (cs : Columns) (key : Column → String) (k : String) (c : Column) : Prop where
  mem : c ∈ cs.list
  key_eq : key c = k
  highest : ∀ d ∈ cs.list, key d = k → d.position ≤ c.position

theorem Sound.position_eq (h : cs.Sound) {place : Nat} (hc : cs.list[place]? = some c) :
    c.position = place + 1 := by
  have hposition : (cs.list.map (·.position))[place]? = some c.position := by simp [hc]
  rw [h.positions, List.getElem?_range'] at hposition
  · simp only [Option.some.injEq] at hposition
    omega
  · exact (List.getElem?_eq_some_iff.1 hc).1

/-- Since positions count the places, the last place of a key is that of the highest position. -/
theorem Sound.at?_placesBy_eq_some_iff (h : cs.Sound) :
    cs.at? (ColumnLookups.placesBy key 0 cs.list) k = some c ↔ cs.Highest key k c := by
  rw [at?, Option.bind_eq_some_iff]
  constructor
  · rintro ⟨place, hplace, hc⟩
    obtain ⟨d, hd, hkey, hlast⟩ := ColumnLookups.lookup_placesBy_eq_some_iff.1 hplace
    cases hc.symm.trans hd
    refine ⟨List.mem_of_getElem? hc, hkey, ?_⟩
    intro e he hekey
    obtain ⟨other, hother⟩ := List.mem_iff_getElem?.1 he
    rw [h.position_eq hother, h.position_eq hc]
    exact Nat.succ_le_succ (hlast other e hother hekey)
  · rintro ⟨hmem, hkey, hhighest⟩
    obtain ⟨place, hplace⟩ := List.mem_iff_getElem?.1 hmem
    refine ⟨place, ColumnLookups.lookup_placesBy_eq_some_iff.2 ⟨c, hplace, hkey, ?_⟩, hplace⟩
    intro other d hd hdkey
    have hle := hhighest d (List.mem_of_getElem? hd) hdkey
    rw [h.position_eq hd, h.position_eq hplace] at hle
    exact Nat.le_of_succ_le_succ hle

/-- No column is found only where no column has the key. -/
theorem at?_placesBy_eq_none_iff :
    cs.at? (ColumnLookups.placesBy key 0 cs.list) k = none ↔ ∀ c ∈ cs.list, key c ≠ k := by
  have hnone : (ColumnLookups.placesBy key 0 cs.list).lookup k = none ↔
      ∀ c ∈ cs.list, key c ≠ k := ColumnLookups.lookup_placesBy_eq_none_iff
  rw [← hnone, at?]
  cases hl : (ColumnLookups.placesBy key 0 cs.list).lookup k with
  | none => simp
  | some place =>
    obtain ⟨d, hd, -⟩ := ColumnLookups.lookup_placesBy_eq_some_iff.1 hl
    simp [hd]

theorem findIgnoringCase?_eq_at? (name : String) : cs.findIgnoringCase? name =
    cs.at? (ColumnLookups.placesBy (fun c => Text.lower c.name) 0 cs.list) (Text.lower name) := by
  rw [findIgnoringCase?, cs.lookups_eq, ColumnLookups.ofList_eq_placesBy]

theorem findByExternalName?_eq_at? (name : String) : cs.findByExternalName? name =
    cs.at? (ColumnLookups.placesBy (·.externalName) 0 cs.list) name := by
  rw [findByExternalName?, cs.lookups_eq, ColumnLookups.ofList_eq_placesBy]

/-! ## What keeps columns sound -/

@[simp] theorem length_renumber (before : Nat) (l : List Column) :
    (renumber before l).length = l.length := by
  induction l generalizing before with
  | nil => rfl
  | cons c rest ih => simp [renumber, ih]

theorem positions_renumber (before : Nat) (l : List Column) :
    (renumber before l).map (·.position) = List.range' (before + 1) l.length := by
  induction l generalizing before with
  | nil => rfl
  | cons c rest ih => simp [renumber, ih, List.range'_succ]

theorem countP_inheritance_renumber (before : Nat) (l : List Column) :
    (renumber before l).countP (·.inheritance) = l.countP (·.inheritance) := by
  induction l generalizing before with
  | nil => rfl
  | cons c rest ih => simp [renumber, ih, List.countP_cons]

/-- Columns that are entered anew get the positions that count their places. -/
theorem sound_reindexed {l : List Column} {hnodup : (l.map (·.name)).Nodup}
    (h : l.countP (·.inheritance) ≤ 1) : (reindexed l hnodup).Sound where
  positions := by
    show (renumber 0 l).map (·.position) = List.range' 1 (renumber 0 l).length
    rw [positions_renumber, length_renumber]
  inheritance := by
    show (renumber 0 l).countP (·.inheritance) ≤ 1
    rwa [countP_inheritance_renumber]

/-- Where positions count the places already, entering the columns anew gives what was there. -/
theorem Sound.reindexed_eq (h : cs.Sound) : reindexed cs.list cs.nodup_names = cs := by
  apply eq_of_list_eq
  show renumber 0 cs.list = cs.list
  apply List.ext_getElem?
  intro place
  rw [getElem?_renumber]
  cases hc : cs.list[place]? with
  | none => rfl
  | some c => simp [← h.position_eq hc]

theorem Sound.push (h : cs.Sound) (hnew : ¬ cs.contains c.name = true)
    (hclash : c.inheritance = true → cs.list.countP (·.inheritance) = 0) :
    (cs.push c hnew).Sound := by
  have hlist : (cs.push c hnew).list = cs.list ++ [{ c with position := cs.list.length + 1 }] := rfl
  constructor
  case positions =>
    rw [hlist, List.map_append, h.positions, List.length_append, List.length_singleton,
      List.range'_concat]
    simp [Nat.add_comm]
  case inheritance =>
    rw [hlist, List.countP_append, List.countP_singleton]
    by_cases hc : c.inheritance = true
    · simp [hclash hc, hc]
    · simpa [hc] using h.inheritance

/-- When a column is gone, the ones behind it move up. -/
theorem Sound.remove? (h : cs.Sound) {name : String} {columns : Columns}
    (hremove : cs.remove? name = some (c, columns)) : columns.Sound := by
  unfold Columns.remove? at hremove
  split at hremove
  · cases hremove
  · split at hremove
    · cases hremove
    · cases hremove
      apply sound_reindexed
      exact Nat.le_trans (List.eraseIdx_sublist _ _).countP_le h.inheritance

theorem Sound.deriveExternalNames (h : cs.Sound) (derive : String → String) :
    (cs.deriveExternalNames derive).Sound := by
  apply sound_reindexed
  rw [List.countP_map]
  refine Nat.le_trans (Nat.le_of_eq ?_) h.inheritance
  apply List.countP_congr
  intro c _
  simp only [Function.comp]
  split <;> rfl

theorem Sound.amend (h : cs.Sound) (name : String) {f : Column → Column}
    (hf : ∀ c, (f c).inheritance = c.inheritance) : (cs.amend name f).Sound where
  positions := by
    rw [list_amend, List.map_map, List.length_map, ← h.positions]
    apply List.map_congr_left
    intro c _
    simp only [Function.comp]
    split <;> rfl
  inheritance := by
    rw [list_amend, List.countP_map]
    refine Nat.le_trans (Nat.le_of_eq ?_) h.inheritance
    apply List.countP_congr
    intro c _
    simp only [Function.comp]
    split
    · simp [amended, hf]
    · rfl

end Columns

/-! ## Changes of a table -/

namespace Table

/-- One change of a table, as far as its columns are concerned. A column is amended in all but what
it is looked up by and whether it tells the rows apart. -/
inductive ColumnStep : Table → Table → Prop where
  | addColumn {t t' : Table} {c : Column} : t.addColumn c = .ok t' → ColumnStep t t'
  | removeColumn {t t' : Table} {name : String} {c : Column} :
      t.removeColumn name = .ok (c, t') → ColumnStep t t'
  | amendColumn (t : Table) (name : String) {f : Column → Column} :
      (∀ c, (f c).inheritance = c.inheritance) → ColumnStep t (t.amendColumn name f)
  | refreshExternalNames (t : Table) (derive : NamingMethod → String → String) :
      ColumnStep t (t.refreshExternalNames derive)
  | setting {t t' : Table} : t'.columns = t.columns → ColumnStep t t'

theorem countP_inheritance_of_clash {t : Table} {c : Column} (h : t.inheritanceClash? c = none)
    (hc : c.inheritance = true) : t.columns.list.countP (·.inheritance) = 0 := by
  rw [inheritanceClash?, if_pos hc] at h
  rw [List.countP_eq_zero]
  intro d hd
  simpa using List.find?_eq_none.1 h d hd

theorem inheritance_named (t : Table) (c : Column) :
    (t.named c).inheritance = c.inheritance := by
  unfold named
  split <;> rfl

theorem ColumnStep.sound {t t' : Table} (h : ColumnStep t t') (hs : t.columns.Sound) :
    t'.columns.Sound := by
  cases h with
  | addColumn h =>
    obtain ⟨hclash, hnew, rfl⟩ := addColumn_eq_ok h
    apply hs.push hnew
    intro hinheritance
    rw [inheritance_named] at hinheritance
    exact countP_inheritance_of_clash hclash hinheritance
  | removeColumn h =>
    obtain ⟨removed, columns, hremove, rfl⟩ := removeColumn_eq_ok h
    exact hs.remove? hremove
  | amendColumn name hf => exact hs.amend name hf
  | refreshExternalNames derive => exact hs.deriveExternalNames _
  | setting h => exact h ▸ hs

/-- Any number of changes, one after the other. -/
abbrev ColumnSteps : Table → Table → Prop := Relation.ReflTransGen ColumnStep

theorem ColumnSteps.sound {t t' : Table} (h : t.ColumnSteps t') (hs : t.columns.Sound) :
    t'.columns.Sound := by
  induction h with
  | refl => exact hs
  | tail _ hstep ih => exact hstep.sound ih

/-- An attempt to add a column is a step if it succeeds and none if it is refused. -/
theorem columnSteps_tryAddColumn (t : Table) (c : Column) :
    t.ColumnSteps (t.tryAddColumn c).1 := by
  rcases t.tryAddColumn_cases c with ⟨e, hrefused⟩ | ⟨-, hnew, hadded⟩
  · rw [hrefused]
  · rw [hadded]
    exact .single (.addColumn (addColumn_eq_ok_iff.2 ⟨_, hadded⟩))

theorem columnSteps_tryRemoveColumn (t : Table) (name : String) :
    t.ColumnSteps (t.tryRemoveColumn name).1 := by
  rcases t.tryRemoveColumn_cases name with ⟨-, e, hrefused⟩ | ⟨c, columns, -, hremoved⟩
  · rw [hrefused]
  · rw [hremoved]
    exact .single (.removeColumn (removeColumn_eq_ok_iff.2 hremoved))

theorem table_tryAddColumn_of_error {t : Table} {c : Column} {e : SchemaError}
    (h : (t.tryAddColumn c).2 = .error e) : (t.tryAddColumn c).1 = t := by
  rcases t.tryAddColumn_cases c with ⟨_, hrefused⟩ | ⟨-, hnew, hadded⟩
  · rw [hrefused]
  · rw [hadded] at h
    cases h

theorem table_tryRemoveColumn_of_error {t : Table} {name : String} {e : SchemaError}
    (h : (t.tryRemoveColumn name).2 = .error e) : (t.tryRemoveColumn name).1 = t := by
  rcases t.tryRemoveColumn_cases name with ⟨-, _, hrefused⟩ | ⟨c, columns, -, hremoved⟩
  · rw [hrefused]
  · rw [hremoved] at h
    cases h

theorem columnSteps_inherit (t : Table) (defaults : Defaults) :
    t.ColumnSteps (t.inherit defaults) := by
  have hsetting : ColumnStep t { t with inherited := defaults } := .setting rfl
  exact .tail (.single hsetting) (.refreshExternalNames _ _)

theorem columnSteps_complete (t : Table) (behaviorsApplied : Nat) (strategy : NameStrategy)
    (maxLength : Nat) : t.ColumnSteps (t.complete behaviorsApplied strategy maxLength).1 := by
  refine .tail (.single (.refreshExternalNames t strategy.externalName)) (.setting ?_)
  exact (keeps_complete t behaviorsApplied strategy maxLength).1

end Table

namespace BehaviorRegistry

/-- Whether the behaviors of a registry change columns in steps that a program could take itself,
also where a behavior is refused half-way. -/
def Stepwise (registry : BehaviorRegistry) : Prop :=
  ∀ (t : Table) (declaration : BehaviorDeclaration),
    t.ColumnSteps (registry.applyOne t declaration).state

theorem Stepwise.apply {registry : BehaviorRegistry} (h : registry.Stepwise) (t : Table) :
    t.ColumnSteps (registry.apply t).state :=
  Walk.along_invariant (P := t.ColumnSteps) (fun u declaration _ hu => hu.trans (h u declaration))
    .refl

theorem columnSteps_ensureColumn (t : Table) (name : String) :
    t.ColumnSteps (Timestampable.ensureColumn t name).state := by
  rcases state_ensureColumn_cases t name with hsame | hadd
  · rw [hsame]
  · exact .single (.addColumn hadd)

theorem stepwise_builtIn : builtIn.Stepwise := by
  intro t declaration
  unfold applyOne
  split
  · exact .refl
  · rename_i behavior hcreate
    rw [(create?_builtIn hcreate).2]
    exact Walk.along_invariant (P := t.ColumnSteps)
      (fun u name _ hu => hu.trans (columnSteps_ensureColumn u name)) .refl

end BehaviorRegistry

namespace Table

theorem columnSteps_finalize {registry : BehaviorRegistry} (h : registry.Stepwise) (t : Table)
    (strategy : NameStrategy) (maxLength : Nat) :
    t.ColumnSteps (t.finalize registry strategy maxLength).1 := by
  unfold finalize
  dsimp only
  split
  · exact h.apply t
  · exact (h.apply t).trans (columnSteps_complete _ t.behaviors.length _ _)

/-! ## Tables that are reached -/

/-- The tables that a new one can become. Attempts that are refused, and finalizing that stops at a
behavior, count as changes too. -/
inductive Reached : Table → Prop where
  | new (name : String) : Reached { name }
  | addColumn {t : Table} (c : Column) : Reached t → Reached (t.tryAddColumn c).1
  | removeColumn {t : Table} (name : String) : Reached t → Reached (t.tryRemoveColumn name).1
  | setting {t t' : Table} : t'.columns = t.columns → Reached t → Reached t'
  | inherit {t : Table} (defaults : Defaults) : Reached t → Reached (t.inherit defaults)
  | deriveExternalNames {t : Table} (strategy : NameStrategy) :
      Reached t → Reached (t.deriveExternalNames strategy)
  | behaviors {t : Table} {registry : BehaviorRegistry} :
      registry.Stepwise → Reached t → Reached (registry.apply t).state
  | finalize {t : Table} {registry : BehaviorRegistry} (strategy : NameStrategy) (maxLength : Nat) :
      registry.Stepwise → Reached t → Reached (t.finalize registry strategy maxLength).1

theorem Reached.sound {t : Table} (h : t.Reached) : t.columns.Sound := by
  induction h with
  | new name => exact ⟨rfl, Nat.zero_le 1⟩
  | addColumn c _ ih => exact (columnSteps_tryAddColumn _ c).sound ih
  | removeColumn name _ ih => exact (columnSteps_tryRemoveColumn _ name).sound ih
  | setting hcolumns _ ih => exact hcolumns ▸ ih
  | inherit defaults _ ih => exact (columnSteps_inherit _ defaults).sound ih
  | deriveExternalNames strategy _ ih => exact ih.deriveExternalNames _
  | behaviors hregistry _ ih => exact (hregistry.apply _).sound ih
  | finalize strategy maxLength hregistry _ ih =>
    exact (columnSteps_finalize hregistry _ strategy maxLength).sound ih

/-- What a program may rely on about the columns of a table. -/
structure ColumnsRegistered (t : Table) : Prop where
  positions : t.columns.list.map (·.position) = List.range' 1 t.columns.list.length
  names : t.columnNames.Nodup
  inheritance : t.columns.list.countP (·.inheritance) ≤ 1
  found : ∀ name c, t.column? name = some c ↔ c ∈ t.columns.list ∧ c.name = name
  has : ∀ name, t.hasColumn name = true ↔ ∃ c ∈ t.columns.list, c.name = name
  foundIgnoringCase : ∀ name c, t.columns.findIgnoringCase? name = some c ↔
    t.columns.Highest (fun d => Text.lower d.name) (Text.lower name) c
  missingIgnoringCase : ∀ name, t.columns.findIgnoringCase? name = none ↔
    ∀ c ∈ t.columns.list, Text.lower c.name ≠ Text.lower name
  foundByExternalName : ∀ name c, t.columns.findByExternalName? name = some c ↔
    t.columns.Highest (·.externalName) name c
  missingByExternalName : ∀ name, t.columns.findByExternalName? name = none ↔
    ∀ c ∈ t.columns.list, c.externalName ≠ name
  /-- Entering all columns anew gives the same positions and the same lookups. -/
  reindexed : Columns.reindexed t.columns.list t.columns.nodup_names = t.columns
  addRefused : ∀ c e, (t.tryAddColumn c).2 = .error e → (t.tryAddColumn c).1 = t
  removeRefused : ∀ name e, (t.tryRemoveColumn name).2 = .error e →
    (t.tryRemoveColumn name).1 = t

/-- **The column registry.** However a table came about, its positions count its columns, its
lookups find what they should, and a refused change of its columns leaves it as it was. -/
theorem Reached.columnsRegistered {t : Table} (h : t.Reached) : t.ColumnsRegistered where
  positions := h.sound.positions
  names := t.columns.nodup_names
  inheritance := h.sound.inheritance
  found name c := column?_eq_some_iff
  has name := by
    rw [hasColumn_iff, columnNames, Columns.names, List.mem_map]
  foundIgnoringCase name c := by
    rw [Columns.findIgnoringCase?_eq_at?]
    exact h.sound.at?_placesBy_eq_some_iff
  missingIgnoringCase name := by
    rw [Columns.findIgnoringCase?_eq_at?]
    exact Columns.at?_placesBy_eq_none_iff
  foundByExternalName name c := by
    rw [Columns.findByExternalName?_eq_at?]
    exact h.sound.at?_placesBy_eq_some_iff
  missingByExternalName name := by
    rw [Columns.findByExternalName?_eq_at?]
    exact Columns.at?_placesBy_eq_none_iff
  reindexed := h.sound.reindexed_eq
  addRefused _ _ := table_tryAddColumn_of_error
  removeRefused _ _ := table_tryRemoveColumn_of_error

/-- A table whose columns share names up to case and an external name. The column that was found
for both is taken out again, one more is refused, and then the table is finalized. -/
def retitled : Table :=
  let titled (t : Table) (name : String) : Table :=
    (t.tryAddColumn (Column.withExternalName { name, columnType := .varchar } "Heading")).1
  let grown := ["Title", "title", "TITLE", "title"].foldl titled { name := "book" }
  ((grown.tryRemoveColumn "TITLE").1.finalize .builtIn .standard 64).1

/-- The column before the one that was taken out is found again. -/
theorem columnsRegistered_retitled : retitled.Reached ∧ retitled.ColumnsRegistered ∧
    retitled.columnNames = ["Title", "title"] ∧
    (retitled.columns.findIgnoringCase? "TiTlE").map (·.name) = some "title" ∧
    (retitled.columns.findByExternalName? "Heading").map (·.position) = some 2 := by
  have hreached : retitled.Reached :=
    .finalize _ _ BehaviorRegistry.stepwise_builtIn (.removeColumn _ (.addColumn _ (.addColumn _
      (.addColumn _ (.addColumn _ (.new "book"))))))
  exact ⟨hreached, hreached.columnsRegistered, by decide +kernel, by decide +kernel,
    by decide +kernel⟩

end Table

end RelSchema
