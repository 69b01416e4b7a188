import RelSchema.Table.Lookups

/-!
# The columns of a table

The columns stand in position order, no two with the same name, and carry the lookups that find
them. Adding a column enters it into the lookups; removing one, or deriving external names anew,
renumbers the columns and enters all of them again. Where several columns share a lower-case or
external name, the lookups find the one with the highest position.
-/

namespace RelSchema

/-- Columns in position order, with the lookups that find them. -/
structure Columns where
  list : List Column
  lookups : ColumnLookups
  lookups_eq : lookups = ColumnLookups.ofList list
  nodup_names : (list.map (·.name)).Nodup
deriving DecidableEq

namespace Columns

def empty : Columns := ⟨[], {}, rfl, List.nodup_nil⟩

instance : Inhabited Columns := ⟨empty⟩

/-! ## Renumbering -/

/-- Gives the columns the positions that follow `before`. -/
def renumber (before : Nat) : List Column → List Column
  | [] => []
  | c :: rest => { c with position := before + 1 } :: renumber (before + 1) rest

@[simp] theorem names_renumber (before : Nat) (columns : List Column) :
    (renumber before columns).map (·.name) = columns.map (·.name) := by
  induction columns generalizing before with
  | nil => rfl
  | cons c rest ih => simp [renumber, ih]

/-- The columns numbered from 1 and entered into new lookups. -/
def reindexed (columns : List Column) (h : (columns.map (·.name)).Nodup) : Columns where
  list := renumber 0 columns
  lookups := ColumnLookups.ofList (renumber 0 columns)
  lookups_eq := rfl
  nodup_names := by rwa [names_renumber]

/-! ## Looking up -/

/-- The column at the place that a lookup gives for a key. -/
def at? (cs : Columns) (lookup : PlaceLookup) (key : String) : Option Column :=
  (lookup.lookup key).bind fun place => cs.list[place]?

/-- The column with exactly this name. -/
def find? (cs : Columns) (name : String) : Option Column := cs.at? cs.lookups.byName name

def contains (cs : Columns) (name : String) : Bool := (cs.lookups.byName.lookup name).isSome

theorem not_contains_empty (name : String) : ¬ empty.contains name = true := Bool.false_ne_true

/-- The last column whose name is this one up to letter case. -/
def findIgnoringCase? (cs : Columns) (name : String) : Option Column :=
  cs.at? cs.lookups.byLowerName (Text.lower name)

def containsIgnoringCase (cs : Columns) (name : String) : Bool :=
  (cs.lookups.byLowerName.lookup (Text.lower name)).isSome

/-- The last column with this external name. -/
def findByExternalName? (cs : Columns) (externalName : String) : Option Column :=
  cs.at? cs.lookups.byExternalName externalName

def names (cs : Columns) : List String := cs.list.map (·.name)

theorem not_mem_names_of_not_contains {cs : Columns} {name : String}
    (h : ¬ cs.contains name = true) : name ∉ cs.list.map (·.name) := by
  apply ColumnLookups.not_mem_names_of_lookup_eq_none
  rw [← cs.lookups_eq]
  unfold contains at h
  exact Option.not_isSome_iff_eq_none.1 h

/-! ## Changing -/

/-- Appends a column with a new name, at the next position. -/
def push (cs : Columns) (c : Column) (h : ¬ cs.contains c.name = true) : Columns where
  list := cs.list ++ [{ c with position := cs.list.length + 1 }]
  lookups := cs.lookups.enter cs.list.length c
  lookups_eq := by rw [cs.lookups_eq, ColumnLookups.ofList_append_singleton]; rfl
  nodup_names := by
    rw [List.map_append, List.nodup_append]
    refine ⟨cs.nodup_names, by simp, ?_⟩
    intro a ha b hb hab
    simp only [List.map_cons, List.map_nil, List.mem_singleton] at hb
    subst hb hab
    exact not_mem_names_of_not_contains h ha

/-- Takes the column with this name out; the remaining ones are renumbered. -/
def remove? (cs : Columns) (name : String) : Option (Column × Columns) :=
  match cs.lookups.byName.lookup name with
  | none => none
  | some place =>
    match cs.list[place]? with
    | none => none
    | some c =>
      some (c, reindexed (cs.list.eraseIdx place)
        (cs.nodup_names.sublist ((List.eraseIdx_sublist cs.list place).map _)))

/-- Derives the external name of every column that has no explicit one. -/
def deriveExternalNames (cs : Columns) (derive : String → String) : Columns :=
  reindexed
    (cs.list.map fun c => if c.explicitName then c else { c with externalName := derive c.name })
    (by
      have same : ((cs.list.map fun c =>
          if c.explicitName then c else { c with externalName := derive c.name }).map (·.name))
          = cs.list.map (·.name) := by
        rw [List.map_map]
        exact List.map_congr_left fun c _ => by simp only [Function.comp]; split <;> rfl
      rw [same]
      exact cs.nodup_names)

/-- Changes a column in all but what its table looks it up by: name, external name, position. -/
def amended (f : Column → Column) (c : Column) : Column :=
  { f c with name := c.name, externalName := c.externalName, position := c.position }

theorem ofList_modify_amended (columns : List Column) (place : Nat) (f : Column → Column) :
    ColumnLookups.ofList (columns.modify place (amended f)) = ColumnLookups.ofList columns := by
  have key : ∀ (l : ColumnLookups) (n place : Nat) (cs : List Column),
      l.enterAll n (cs.modify place (amended f)) = l.enterAll n cs := by
    intro l n place cs
    induction cs generalizing l n place with
    | nil => simp
    | cons c cs ih =>
      cases place with
      | zero => rfl
      | succ place => simp only [List.modify_succ_cons, ColumnLookups.enterAll, ih]
  exact key _ _ _ _

theorem names_modify_amended (columns : List Column) (place : Nat) (f : Column → Column) :
    (columns.modify place (amended f)).map (·.name) = columns.map (·.name) := by
  induction columns generalizing place with
  | nil => simp
  | cons c cs ih => cases place <;> simp [amended, ih]

/-- Changes the column with this name, if there is one, in all but what it is looked up by. -/
def amend (cs : Columns) (name : String) (f : Column → Column) : Columns :=
  match cs.lookups.byName.lookup name with
  | none => cs
  | some place =>
    { list := cs.list.modify place (amended f)
      lookups := cs.lookups
      lookups_eq := by rw [ofList_modify_amended, cs.lookups_eq]
      nodup_names := by rw [names_modify_amended]; exact cs.nodup_names }

end Columns

end RelSchema
