import RelSchema.Proofs.FinalizeAdditions
import RelSchema.Proofs.LinkOutcomes

/-!
# Visits that add indices

In the course of a run a table can be given indices several times: once when it is finalized, and
then whenever a key is linked that it declares or that points at it. Each time is a visit, with the
table as it was found and as it was left. The indices that a run of linking reports are, in order,
the ones that its visits add (`Resolver.notes_linkOutcomes`).
-/

namespace RelSchema

/-- How a report words an index of a table that was added. -/
def Index.note (table : String) (index : Index) : Diagnostic where
  code := .indexSynthesized
  severity := .info
  message := "Added index '" ++ index.name ++ "' on (" ++ ", ".intercalate index.columnNames ++ ")"
  location := some (.ofConstraint table index.name)

/-- A table as an addition of indices finds it and leaves it. -/
structure TableVisit where
  before : Table
  after : Table

namespace TableVisit

def added (v : TableVisit) : List Index := v.before.addedIndices v.after

def notes (v : TableVisit) : List Diagnostic := v.added.map (Index.note v.after.name)

end TableVisit

/-- What is noted of an entry. -/
def SynthesizedIndex.note (entry : SynthesizedIndex) : Diagnostic := entry.index.note entry.table

theorem map_note_eq {entries : List SynthesizedIndex} {table : String}
    (h : ∀ entry ∈ entries, entry.table = table) :
    entries.map (·.note) = (entries.map (·.index)).map (Index.note table) := by
  rw [List.map_map]
  apply List.map_congr_left
  intro entry hentry
  rw [SynthesizedIndex.note, h entry hentry]
  rfl

namespace Database

variable {db db' : Database}

/-- The visit of completing the table behind a handle. -/
def completion (db : Database) (id : TableId) : List TableVisit :=
  (db.table? id).toList.map fun t => ⟨t, t.completedIn db⟩

theorem completion_congr (h : db.outline = db'.outline) {id : TableId}
    (ht : db.table? id = db'.table? id) : db.completion id = db'.completion id := by
  rw [completion, completion, ht]
  simp only [Table.completedIn_of_outline_eq h]

/-- What completing a table reports is what the visit adds. -/
theorem notes_synthesizeIndices (db : Database) (id : TableId) :
    (db.synthesizeIndices id).2.map (·.note) = (db.completion id).flatMap (·.notes) := by
  unfold synthesizeIndices completion
  cases ht : db.table? id with
  | none => rfl
  | some t =>
    have htable : ∀ entry ∈ t.createdIn db, entry.table = (t.completedIn db).name := by
      intro entry hentry
      rw [(t.replacing_run db).entries entry hentry |>.1]
      exact (t.replacing_run db).name.symm
    simp only [Option.toList_some, List.map_singleton, List.flatMap_singleton]
    rw [TableVisit.notes, TableVisit.added, Table.addedIndices_completedIn, ← map_note_eq htable]
    rfl

theorem name_ne_empty_of_completion {id : TableId} {v : TableVisit} (hv : v ∈ db.completion id)
    {index : Index} (hindex : index ∈ v.added) : index.name ≠ "" := by
  obtain ⟨t, -, rfl⟩ := List.mem_map.1 hv
  rw [TableVisit.added, Table.addedIndices_completedIn] at hindex
  obtain ⟨entry, hentry, rfl⟩ := List.mem_map.1 hindex
  exact ((t.replacing_run db).entries entry hentry).2

/-! ## The visits of a run -/

/-- The database with the ends of a key linked, before indices are added for it. -/
def connected (db : Database) (k : DeclaredKey) : Database := k.key.ends.foldl k.connect db

/-- The tables that a key completes: its own, then the target unless that is the same. -/
def sides (db : Database) (k : DeclaredKey) : List TableId :=
  match db.tableId? k.key.foreignTable with
  | some id => if id = k.id.table then [id] else [k.id.table, id]
  | none => [k.id.table]

/-- The visits of linking one key. -/
def keyVisits (db : Database) (k : DeclaredKey) : List TableVisit :=
  if db.platform.needsKeyIndices then (db.sides k).flatMap (db.connected k).completion else []

/-- The visits of linking these keys one after the other. -/
def linkVisits (db : Database) : List DeclaredKey → List TableVisit
  | [] => []
  | k :: rest => db.keyVisits k ++ (db.linkKey k).linkVisits rest

theorem linkVisits_append (db : Database) (keys keys' : List DeclaredKey) :
    db.linkVisits (keys ++ keys') =
      db.linkVisits keys ++ (keys.foldl linkKey db).linkVisits keys' := by
  induction keys generalizing db with
  | nil => rfl
  | cons k rest ih =>
    simp only [List.cons_append, linkVisits, ih, List.foldl_cons, List.append_assoc]

/-- A visit of a run is one of some key, after the keys before it were linked. -/
theorem exists_split_of_linkVisits {keys : List DeclaredKey} {v : TableVisit}
    (hv : v ∈ db.linkVisits keys) : ∃ earlier k later,
      keys = earlier ++ k :: later ∧ v ∈ (earlier.foldl linkKey db).keyVisits k := by
  induction keys generalizing db with
  | nil => cases hv
  | cons k rest ih =>
    rcases List.mem_append.1 hv with hfirst | hrest
    · exact ⟨[], k, rest, rfl, hfirst⟩
    · obtain ⟨earlier, found, later, rfl, hfound⟩ := ih hrest
      exact ⟨k :: earlier, found, later, rfl, hfound⟩

theorem name_ne_empty_of_linkVisits {keys : List DeclaredKey} {v : TableVisit}
    (hv : v ∈ db.linkVisits keys) {index : Index} (hindex : index ∈ v.added) : index.name ≠ "" := by
  obtain ⟨_, k, _, -, hvisit⟩ := exists_split_of_linkVisits hv
  unfold keyVisits at hvisit
  split at hvisit
  · obtain ⟨id, -, hcompletion⟩ := List.mem_flatMap.1 hvisit
    exact name_ne_empty_of_completion hcompletion hindex
  · cases hvisit

theorem outline_connected (db : Database) (k : DeclaredKey) :
    (db.connected k).outline = db.outline := by
  rw [connected, foldl_connect]
  exact outline_mapTables_of_declaration fun id t => Table.declaration_linkEnds db id k t _

theorem sides_congr (h : db.outline = db'.outline) (k : DeclaredKey) :
    db.sides k = db'.sides k := by
  rw [sides, sides, tableId?_congr h]

theorem mem_sides_iff {k : DeclaredKey} {id : TableId} : id ∈ db.sides k ↔ k.Touches db id := by
  unfold sides DeclaredKey.Touches
  cases db.tableId? k.key.foreignTable with
  | none => simp [eq_comm]
  | some target =>
    dsimp only
    split
    · rename_i hsame
      simp [hsame, eq_comm]
    · simp [eq_comm]

/-- A visit finds a table as it is once the ends of the key are linked, and leaves it as it then is
in the database. -/
theorem table?_of_keyVisits {k : DeclaredKey} {v : TableVisit} (hv : v ∈ db.keyVisits k) :
    ∃ id, (db.connected k).table? id = some v.before ∧ (db.linkKey k).table? id = some v.after := by
  unfold keyVisits at hv
  split at hv
  · rename_i hneeds
    obtain ⟨id, hid, hv⟩ := List.mem_flatMap.1 hv
    obtain ⟨t, ht, rfl⟩ := List.mem_map.1 hv
    rw [Option.mem_toList] at ht
    refine ⟨id, ht, ?_⟩
    have hbefore := ht
    rw [connected, foldl_connect, table?_mapTables, Option.map_eq_some_iff] at hbefore
    obtain ⟨first, hfirst, rfl⟩ := hbefore
    rw [linkKey, table?_mapTables, hfirst, Option.map_some, Table.linkKey,
      if_pos ⟨hneeds, mem_sides_iff.1 hid⟩,
      Table.completedIn_of_outline_eq (outline_connected db k)]
  · cases hv

end Database

/-! ## What linking reports -/

namespace LinkState

variable {check : ReferenceCheck} {k : DeclaredKey} {s : LinkState}

/-- What is noted of the indices that were added so far. -/
def notes (s : LinkState) : List Diagnostic := s.outcome.synthesized.map (·.note)

theorem notes_synthesize (s : LinkState) (id : TableId) :
    (s.synthesize id).notes = s.notes ++ (s.db.completion id).flatMap (·.notes) := by
  rw [← Database.notes_synthesizeIndices, notes, notes, ← List.map_append]
  rfl

theorem notes_synthesizeFor (s : LinkState) (k : DeclaredKey) : (s.synthesizeFor k).notes =
    s.notes ++ (if s.db.platform.needsKeyIndices then (s.db.sides k).flatMap s.db.completion
      else []).flatMap (·.notes) := by
  unfold synthesizeFor
  split
  · simp only [Database.tableId?_congr (outline_synthesize s _), Database.sides]
    cases s.db.tableId? k.key.foreignTable with
    | none => simp [notes_synthesize]
    | some target =>
      dsimp only
      split
      · rename_i hsame
        rw [hsame, notes_synthesize, List.flatMap_singleton]
      · rename_i hdiffer
        -- completing the table of the key has left the target as it was
        have htarget : (s.synthesize k.id.table).db.table? target = s.db.table? target := by
          rw [db_synthesize, Database.table?_mapTables]
          cases s.db.table? target with
          | none => rfl
          | some t => exact congrArg some (if_neg hdiffer)
        rw [notes_synthesize, notes_synthesize,
          Database.completion_congr (outline_synthesize s _) htarget]
        simp
  · simp

theorem notes_visitEnd (check : ReferenceCheck) (k : DeclaredKey) (s : LinkState) (e : KeyEnd) :
    (visitEnd check k s e).state.notes = s.notes := by
  unfold visitEnd
  cases k.dangling? s.db e <;> cases check <;> rfl

/-- The indices that linking a key reports are the ones that its visits add. -/
theorem notes_visitKey (h : (visitKey check s k).error = none) :
    (visitKey check s k).state.notes = s.notes ++ (s.db.keyVisits k).flatMap (·.notes) := by
  have hends := error_visitKey_eq_none_iff.1 h
  have hdb : (Walk.along (visitEnd check k) s.counted k.key.ends).state.db = s.db.connected k :=
    Walk.view_along LinkState.db k.connect (fun _ _ => db_visitEnd) hends
  have hnotes : (Walk.along (visitEnd check k) s.counted k.key.ends).state.notes = s.notes :=
    Walk.along_invariant (P := fun v : LinkState => v.notes = s.notes)
      (fun v e _ hv => (notes_visitEnd check k v e).trans hv) rfl
  have hplatform : (s.db.connected k).platform = s.db.platform := by
    rw [Database.connected, Database.foldl_connect]
    rfl
  have hstate : (visitKey check s k).state =
      (Walk.along (visitEnd check k) s.counted k.key.ends).state.synthesizeFor k :=
    Walk.state_andThen_of_error_eq_none hends
  rw [hstate, notes_synthesizeFor, hdb, hnotes, hplatform,
    Database.sides_congr (s.db.outline_connected k)]
  rfl

theorem notes_along_visitKey {keys : List DeclaredKey}
    (h : (Walk.along (visitKey check) s keys).error = none) :
    (Walk.along (visitKey check) s keys).state.notes =
      s.notes ++ (s.db.linkVisits keys).flatMap (·.notes) := by
  induction keys generalizing s with
  | nil => exact (List.append_nil _).symm
  | cons k rest ih =>
    rw [Walk.along_cons] at h ⊢
    obtain ⟨hfirst, hrest⟩ := Walk.error_andThen_eq_none_iff.1 h
    rw [Walk.state_andThen_of_error_eq_none hfirst, ih hrest, notes_visitKey hfirst,
      db_visitKey hfirst, Database.linkVisits, List.flatMap_append, List.append_assoc]

end LinkState

namespace Resolver

variable {r : Resolver} {s : Resolution} {db : Database} {ids : List TableId}

theorem db_keyWalk {id : TableId} (h : (r.keyWalk db id).error = none) :
    (r.keyWalk db id).state.db = (db.declaredKeys id).foldl Database.linkKey db :=
  Walk.view_along LinkState.db Database.linkKey (fun _ _ => LinkState.db_visitKey) h

theorem notes_along_linkTable (h : (Walk.along r.linkTable s ids).error = none)
    (houtline : s.db.outline = db.outline) :
    ((s.db.linkOutcomes r.check ids).flatMap (·.synthesized)).map (·.note) =
      (s.db.linkVisits (ids.flatMap db.declaredKeys)).flatMap (·.notes) := by
  induction ids generalizing s with
  | nil => rfl
  | cons id rest ih =>
    obtain ⟨hfirst, hrest, -⟩ := along_linkTable_cons h
    have hkeys : s.db.declaredKeys id = db.declaredKeys id := by
      rw [Database.declaredKeys_eq_outline, Database.declaredKeys_eq_outline, houtline]
    have hcall : (r.keyWalk s.db id).state.outcome.synthesized.map (·.note) =
        (s.db.linkVisits (s.db.declaredKeys id)).flatMap (·.notes) :=
      LinkState.notes_along_visitKey hfirst
    have hnext := ih hrest ((outline_linkTable r s id).trans houtline)
    rw [db_linkTable] at hnext
    rw [linkOutcomes_cons hfirst, List.flatMap_cons, List.map_append, hnext, hcall,
      db_keyWalk hfirst, hkeys, List.flatMap_cons, Database.linkVisits_append, List.flatMap_append]

/-- **A run of linking reports what its visits add**, in order. -/
theorem notes_linkOutcomes (h : (r.link s).error = none) :
    ((s.db.linkOutcomes r.check s.db.tableIds).flatMap (·.synthesized)).map (·.note) =
      (s.db.linkVisits s.db.allKeys).flatMap (·.notes) :=
  notes_along_linkTable h rfl

end Resolver

end RelSchema
