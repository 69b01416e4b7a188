import RelSchema.Database

/-!
# Tables and their names

A table is found under its name by the first table that has it. Tables are only added under new
names, so each table of a database is the one found under its name, and adding several tables goes
through exactly when all names are different.
-/

namespace RelSchema

namespace Database

variable {db : Database}

/-! ## Names and handles -/

theorem name_of_tableId? {name : String} {id : TableId} {t : Table}
    (h : db.tableId? name = some id) (ht : db.table? id = some t) : t.name = name := by
  obtain ⟨place, hplace, rfl⟩ := Option.map_eq_some_iff.1 h
  obtain ⟨hlt, hname, -⟩ := List.findIdx?_eq_some_iff_getElem.1 hplace
  cases (List.getElem?_eq_getElem hlt).symm.trans ht
  simpa using hname

theorem tableId?_eq_none_iff {name : String} :
    db.tableId? name = none ↔ name ∉ db.tables.map (·.name) := by
  rw [tableId?, Option.map_eq_none_iff, List.findIdx?_eq_none_iff]
  simp

/-- Where names are unique, a table is found under its name. -/
theorem tableId?_name (h : (db.tables.map (·.name)).Nodup) {id : TableId} {t : Table}
    (ht : db.table? id = some t) : db.tableId? t.name = some id := by
  cases hfound : db.tableId? t.name with
  | none =>
    exact absurd (List.mem_map_of_mem (List.mem_of_getElem? ht)) (tableId?_eq_none_iff.1 hfound)
  | some found =>
    obtain ⟨place, hplace, rfl⟩ := Option.map_eq_some_iff.1 hfound
    obtain ⟨hlt, hname, -⟩ := List.findIdx?_eq_some_iff_getElem.1 hplace
    obtain ⟨hlt', hget⟩ := List.getElem?_eq_some_iff.1 ht
    have hbound : place < (db.tables.map (·.name)).length := by simpa using hlt
    have hbound' : id.index < (db.tables.map (·.name)).length := by simpa using hlt'
    -- the name stands at both places, so they are one
    have hsame : (db.tables.map (·.name))[place] = (db.tables.map (·.name))[id.index] := by
      rw [List.getElem_map, List.getElem_map, hget]
      simpa using hname
    have hplaces : place = id.index := (List.getElem_inj h).1 hsame
    rw [hplaces]

/-! ## Adding tables -/

/-- The table as the database takes it over. -/
def adopted (db : Database) (t : Table) : Table :=
  { t with schema := t.schema.or db.defaultSchema }.inherit db.defaults

theorem addTable_of_new {t : Table} (h : t.name ∉ db.tables.map (·.name)) :
    db.addTable t = .ok (⟨db.tables.length⟩, { db with tables := db.tables ++ [db.adopted t] }) := by
  have hnew : ¬ db.hasTable t.name = true := by
    rw [hasTable, tableId?_eq_none_iff.2 h]
    exact Bool.false_ne_true
  exact if_neg hnew

theorem addTable_eq_ok {t : Table} {id : TableId} {db' : Database}
    (h : db.addTable t = .ok (id, db')) : t.name ∉ db.tables.map (·.name) ∧
      db' = { db with tables := db.tables ++ [db.adopted t] } := by
  unfold addTable at h
  split at h
  · cases h
  · rename_i hnew
    cases h
    exact ⟨tableId?_eq_none_iff.1 (Option.not_isSome_iff_eq_none.1 hnew), rfl⟩

/-- Adds tables one after the other; the first that is refused ends it. -/
def addTables (db : Database) : List Table → Except SchemaError Database
  | [] => .ok db
  | t :: rest =>
    match db.addTable t with
    | .ok (_, db) => db.addTables rest
    | .error e => .error e

/-- The database with these tables taken over. -/
def withTables (db : Database) (ts : List Table) : Database :=
  { db with tables := db.tables ++ ts.map db.adopted }

theorem withTables_append (db : Database) (ts us : List Table) :
    db.withTables (ts ++ us) = (db.withTables ts).withTables us := by
  show { db with tables := db.tables ++ (ts ++ us).map db.adopted } =
    { db with tables := (db.tables ++ ts.map db.adopted) ++ us.map db.adopted }
  rw [List.map_append, List.append_assoc]

theorem names_withTables (db : Database) (ts : List Table) :
    (db.withTables ts).tables.map (·.name) = db.tables.map (·.name) ++ ts.map (·.name) := by
  rw [withTables, List.map_append, List.map_map]
  rfl

/-- What holds of the tables and of those that join them as they are taken over. -/
theorem forall_mem_withTables {P : Table → Prop} {ts : List Table} (h : ∀ t ∈ db.tables, P t)
    (hts : ∀ t ∈ ts, P (db.adopted t)) : ∀ t ∈ (db.withTables ts).tables, P t := by
  intro t ht
  rcases List.mem_append.1 ht with ht | ht
  · exact h t ht
  · obtain ⟨u, hu, rfl⟩ := List.mem_map.1 ht
    exact hts u hu

/-- Adding tables under new names takes them over in order. -/
theorem addTables_of_nodup {ts : List Table}
    (h : (db.tables.map (·.name) ++ ts.map (·.name)).Nodup) :
    db.addTables ts = .ok (db.withTables ts) := by
  induction ts generalizing db with
  | nil =>
    rw [addTables, withTables, List.map_nil, List.append_nil]
  | cons t rest ih =>
    have hnew : t.name ∉ db.tables.map (·.name) := by
      intro hmem
      exact (List.nodup_append.1 h).2.2 _ hmem _ List.mem_cons_self rfl
    have hrest : ((db.withTables [t]).tables.map (·.name) ++ rest.map (·.name)).Nodup := by
      rw [names_withTables, List.append_assoc]
      exact h
    have hfirst : db.addTable t = .ok (⟨db.tables.length⟩, db.withTables [t]) :=
      addTable_of_new hnew
    rw [addTables, hfirst]
    show (db.withTables [t]).addTables rest = _
    rw [ih hrest, ← withTables_append]
    rfl

end Database

end RelSchema
