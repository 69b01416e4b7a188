import RelSchema.Table.Edit

/-!
# Finding columns by name

The lookup by exact name is kept up to date in several ways; here it is shown to find exactly the
columns that the table lists. Since names are unique, an entry of a name is the one place where a
column with this name stands (`lookup_byName_eq_some_iff`). Amending a column is then a map over the
listed columns (`list_amend`).
-/

namespace RelSchema

namespace ColumnLookups

/-- An entry found by name was entered for a column with this name, or was there before. -/
theorem place_of_lookup_enterAll {lookups : ColumnLookups} {start place : Nat}
    {columns : List Column} {name : String}
    (h : (lookups.enterAll start columns).byName.lookup name = some place) :
    (∃ offset c, place = start + offset ∧ columns[offset]? = some c ∧ c.name = name) ∨
      lookups.byName.lookup name = some place := by
  induction columns generalizing lookups start with
  | nil => exact Or.inr h
  | cons c rest ih =>
    rcases ih h with ⟨offset, d, rfl, hd, hname⟩ | hold
    · exact Or.inl ⟨offset + 1, d, by omega, by simpa using hd, hname⟩
    · rw [enter, List.lookup_cons] at hold
      by_cases hname : name = c.name
      · simp only [hname, beq_self_eq_true, Option.some.injEq] at hold
        exact Or.inl ⟨0, c, by omega, by simp, hname.symm⟩
      · rw [beq_eq_false_iff_ne.2 hname] at hold
        exact Or.inr hold

theorem place_of_lookup {columns : List Column} {name : String} {place : Nat}
    (h : (ofList columns).byName.lookup name = some place) :
    ∃ c, columns[place]? = some c ∧ c.name = name := by
  rcases place_of_lookup_enterAll h with ⟨offset, c, hplace, hc, hname⟩ | hnone
  · rw [Nat.zero_add] at hplace
    exact ⟨c, hplace ▸ hc, hname⟩
  · cases hnone

end ColumnLookups

namespace Columns

variable {cs ds : Columns} {name : String}

/-- The lookups follow from the list, so the list is all there is to compare. -/
theorem eq_of_list_eq (h : cs.list = ds.list) : cs = ds := by
  obtain ⟨list, lookups, hl, _⟩ := cs
  obtain ⟨list', lookups', hl', _⟩ := ds
  subst hl hl'
  cases h
  rfl

/-- In a table a name stands at one place only. -/
theorem place_unique {i j : Nat} {c d : Column} (hi : cs.list[i]? = some c)
    (hj : cs.list[j]? = some d) (hname : c.name = d.name) : i = j := by
  have hi' : (cs.list.map (·.name))[i]? = some c.name := by simp [hi]
  have hj' : (cs.list.map (·.name))[j]? = some c.name := by simp [hj, hname]
  obtain ⟨hlt, -⟩ := List.getElem?_eq_some_iff.1 hi'
  exact (List.getElem?_inj hlt cs.nodup_names).1 (hi'.trans hj'.symm)

theorem lookup_byName_eq_some_iff {place : Nat} :
    cs.lookups.byName.lookup name = some place ↔ ∃ c, cs.list[place]? = some c ∧ c.name = name := by
  rw [cs.lookups_eq]
  constructor
  · exact ColumnLookups.place_of_lookup
  · rintro ⟨c, hc, rfl⟩
    cases hl : (ColumnLookups.ofList cs.list).byName.lookup c.name with
    | none =>
      exact absurd (List.mem_map_of_mem (List.mem_of_getElem? hc))
        (ColumnLookups.not_mem_names_of_lookup_eq_none hl)
    | some other =>
      obtain ⟨d, hd, hname⟩ := ColumnLookups.place_of_lookup hl
      rw [place_unique hc hd hname.symm]

theorem lookup_byName_eq_none_iff : cs.lookups.byName.lookup name = none ↔ name ∉ cs.names := by
  constructor
  · intro h
    rw [cs.lookups_eq] at h
    exact ColumnLookups.not_mem_names_of_lookup_eq_none h
  · intro h
    cases hl : cs.lookups.byName.lookup name with
    | none => rfl
    | some place =>
      obtain ⟨c, hc, rfl⟩ := lookup_byName_eq_some_iff.1 hl
      exact absurd (List.mem_map_of_mem (List.mem_of_getElem? hc)) h

theorem contains_iff : cs.contains name = true ↔ name ∈ cs.names := by
  rw [contains, Option.isSome_iff_ne_none, ne_eq, lookup_byName_eq_none_iff, Classical.not_not]

theorem find?_eq_some_iff {c : Column} : cs.find? name = some c ↔ c ∈ cs.list ∧ c.name = name := by
  rw [find?, at?, Option.bind_eq_some_iff]
  constructor
  · rintro ⟨place, hplace, hc⟩
    obtain ⟨d, hd, hname⟩ := lookup_byName_eq_some_iff.1 hplace
    cases hc.symm.trans hd
    exact ⟨List.mem_of_getElem? hc, hname⟩
  · rintro ⟨hmem, hname⟩
    obtain ⟨place, hplace⟩ := List.mem_iff_getElem?.1 hmem
    exact ⟨place, lookup_byName_eq_some_iff.2 ⟨c, hplace, hname⟩, hplace⟩

/-! ## Amending -/

/-- Amending changes the column with this name where it stands, and no other. -/
theorem list_amend (cs : Columns) (name : String) (f : Column → Column) :
    (cs.amend name f).list = cs.list.map fun c => if c.name = name then amended f c else c := by
  rw [amend]
  split
  · rename_i hl
    have habsent := lookup_byName_eq_none_iff.1 hl
    have hsame : ∀ c ∈ cs.list, (if c.name = name then amended f c else c) = c := by
      intro c hc
      have hne : c.name ≠ name := by
        rintro rfl
        exact habsent (List.mem_map_of_mem hc)
      rw [if_neg hne]
    rw [List.map_congr_left hsame, List.map_id']
  · rename_i place hl
    obtain ⟨c, hc, rfl⟩ := lookup_byName_eq_some_iff.1 hl
    apply List.ext_getElem?
    intro i
    rw [List.getElem?_modify, List.getElem?_map]
    cases hd : cs.list[i]? with
    | none => rfl
    | some d =>
      by_cases hi : place = i
      · subst hi
        cases hc.symm.trans hd
        simp
      · have hne : d.name ≠ c.name := fun h => hi (place_unique hc hd h.symm)
        simp [hi, hne]

/-- Where the column with this name would not change, amending changes nothing. -/
theorem amend_eq_self {f : Column → Column}
    (h : ∀ c ∈ cs.list, c.name = name → amended f c = c) : cs.amend name f = cs := by
  have hsame : ∀ c ∈ cs.list, (if c.name = name then amended f c else c) = c := by
    intro c hc
    split
    · rename_i hname
      exact h c hc hname
    · rfl
  apply eq_of_list_eq
  rw [list_amend, List.map_congr_left hsame, List.map_id']

end Columns

namespace Table

variable {t : Table} {name : String}

theorem hasColumn_iff : t.hasColumn name = true ↔ name ∈ t.columnNames := Columns.contains_iff

theorem column?_eq_some_iff {c : Column} :
    t.column? name = some c ↔ c ∈ t.columns.list ∧ c.name = name := Columns.find?_eq_some_iff

end Table

end RelSchema
