import RelSchema.Coverage
import RelSchema.Database
import RelSchema.Text.Split

/-!
# Synthesized indices

Some platforms refuse a foreign key unless its local columns lead an index of its own table and its
referenced columns lead one of the target. A table is completed by going through its requirements:
one that is not covered gets a new index. The name of the new index follows from the foreign key's
name; an older index that already has this name is replaced, and the requirements that only it
covered are taken up again.
-/

namespace RelSchema

/-- Why an index was added. -/
inductive SynthesisReason where
  /-- A foreign key refers to the columns. -/
  | referenced
  /-- The columns are the local columns of a foreign key. -/
  | foreignKey
  /-- The columns are a suffix of a composite primary key. -/
  | heavyIndexing
deriving DecidableEq, Repr

namespace SynthesisReason

def label : SynthesisReason → String
  | referenced => "referenced"
  | foreignKey => "foreign_key"
  | heavyIndexing => "heavy_indexing"

end SynthesisReason

/-- An index that was added to a table. -/
structure SynthesizedIndex where
  table : String
  name : String
  columns : List String
  reason : SynthesisReason
deriving DecidableEq, Repr

/-- The name of the index behind a foreign key's local columns: the last `FK_` of the key's name
becomes `FI_`, and a name without one gets `FI_` in front. -/
def foreignKeyIndexName (foreignKey : String) : String :=
  match Text.replaceLast? "FK_".toList "FI_".toList foreignKey.toList with
  | some changed => String.ofList changed
  | none => "FI_" ++ foreignKey

/-- The name of the index behind referenced columns. -/
def referencedIndexName (foreignKey : String) (ordinal : Nat) : String :=
  "I_referenced_" ++ foreignKey ++ "_" ++ toString ordinal

/-- The first of `base_2`, `base_3`, … that no index of the table has. One more name is tried than
the table has indices, so one is free. -/
def freeIndexName (t : Table) (base : String) : String :=
  (((List.range (t.indices.length + 1)).map fun n => base ++ "_" ++ toString (n + 2)).find?
    fun name => !t.hasIndex name).getD base

/-- A list of columns that one side of a foreign key needs to be covered. -/
structure Requirement where
  foreignKey : String
  columns : List String
  reason : SynthesisReason
deriving DecidableEq, Repr

/-- The state of completing one table. -/
structure Worklist where
  table : Table
  coverage : CoverageMap
  pending : List Requirement
  satisfied : List Requirement := []
  created : List SynthesizedIndex := []
  /-- How many referenced lists were found uncovered. -/
  ordinal : Nat := 0

namespace Worklist

def hasCreated (w : Worklist) (name : String) : Bool := w.created.any (·.name == name)

/-- How many indices of the table do not have the name of a created one. -/
def staleCount (w : Worklist) : Nat := w.table.indices.countP fun index => !w.hasCreated index.name

/-- Decreases with every step: a step that takes requirements up again removes a stale index. -/
def measure (w : Worklist) : Nat :=
  w.staleCount * (w.pending.length + w.satisfied.length + 1) + w.pending.length

/-- The ordinal of the next index: only indices over referenced columns are counted. -/
def nextOrdinal (w : Worklist) (r : Requirement) : Nat :=
  match r.reason with
  | .referenced => w.ordinal + 1
  | _ => w.ordinal

/-- The name that the foreign key of a requirement gives to its index. -/
def baseName (w : Worklist) (r : Requirement) : String :=
  match r.reason with
  | .referenced => referencedIndexName r.foreignKey (w.nextOrdinal r)
  | _ => foreignKeyIndexName r.foreignKey

/-- Takes the first index with this name out, and takes up again the requirements that nothing
covers without it, before all others and in their order. -/
def dropStale (w : Worklist) (name : String) : Worklist :=
  match w.table.removeIndex name with
  | .error _ => w
  | .ok (_, table) =>
    let coverage := w.coverage.forget name
    { w with
      table
      coverage
      pending := w.satisfied.filter (fun r => !coverage.isCovered r.columns) ++ w.pending
      satisfied := w.satisfied.filter fun r => coverage.isCovered r.columns }

/-- Adds an index for a requirement, which is satisfied from then on. -/
def create (w : Worklist) (name : String) (r : Requirement) : Worklist :=
  { w with
    table := w.table.addIndex { (Index.on r.columns).resetSizes with name }
    coverage := w.coverage.record name r.columns
    satisfied := w.satisfied ++ [r]
    created := w.created ++ [⟨w.table.name, name, r.columns, r.reason⟩] }

/-- Deals with the first of the pending requirements; `w` holds the rest. A name that was used in
this run already gives way to a free one, which replaces nothing. -/
def step (w : Worklist) (r : Requirement) : Worklist :=
  if w.coverage.isCovered r.columns then { w with satisfied := w.satisfied ++ [r] }
  else
    let base := w.baseName r
    let counted := { w with ordinal := w.nextOrdinal r }
    if w.hasCreated base then counted.create (freeIndexName w.table base) r
    else (counted.dropStale base).create base r

/-! ## Every run ends -/

theorem staleCount_create_le (w : Worklist) (name : String) (r : Requirement) :
    (w.create name r).staleCount ≤ w.staleCount := by
  have new : (w.create name r).hasCreated name = true := by simp [create, hasCreated]
  unfold staleCount
  have indices : (w.create name r).table.indices =
      w.table.indices ++ [{ (Index.on r.columns).resetSizes with name, unique := false }] := rfl
  rw [indices, List.countP_append]
  have last : List.countP (fun index => !(w.create name r).hasCreated index.name)
      [{ (Index.on r.columns).resetSizes with name, unique := false }] = 0 := by
    simp [new]
  rw [last, Nat.add_zero]
  apply List.countP_mono_left
  intro index _ h
  simp only [create, hasCreated, List.any_append, Bool.not_or, Bool.and_eq_true] at h
  simpa [hasCreated] using h.1

theorem removeIndex_ok {t t' : Table} {name : String} {index : Index}
    (h : t.removeIndex name = .ok (index, t')) :
    t' = { t with indices := t.indices.eraseP (·.name == name) } ∧
      ∃ i ∈ t.indices, i.name = name := by
  unfold Table.removeIndex at h
  split at h
  · cases h
  · rename_i heq
    cases h
    refine ⟨rfl, index, List.mem_of_find?_eq_some heq, ?_⟩
    simpa using List.find?_some heq

theorem staleCount_eraseP_lt {w : Worklist} {name : String} (h : w.hasCreated name = false)
    (hex : ∃ i ∈ w.table.indices, i.name = name) :
    ((w.table.indices.eraseP (·.name == name)).countP fun index => !w.hasCreated index.name) <
      w.staleCount := by
  obtain ⟨i, hi, hname⟩ := hex
  obtain ⟨a, l₁, l₂, -, ha, hl, he⟩ :=
    List.exists_of_eraseP (p := fun index : Index => index.name == name) hi (by simp [hname])
  have haname : a.name = name := by simpa using ha
  unfold staleCount
  rw [he, hl, List.countP_append, List.countP_append, List.countP_cons]
  simp [haname, h]

theorem length_filter_not_add {α : Type} (l : List α) (p : α → Bool) :
    (l.filter fun a => !p a).length + (l.filter p).length = l.length := by
  induction l with
  | nil => rfl
  | cons a l ih => cases h : p a <;> simp [h] <;> omega

/-- What `dropStale` keeps, and that it pays for requirements taken up again with an index. -/
theorem dropStale_cases (w : Worklist) (name : String) (h : w.hasCreated name = false) :
    (w.dropStale name).created = w.created ∧
    (w.dropStale name).pending.length + (w.dropStale name).satisfied.length =
      w.pending.length + w.satisfied.length ∧
    (w.dropStale name = w ∨ (w.dropStale name).staleCount < w.staleCount) := by
  unfold dropStale
  split
  · exact ⟨rfl, rfl, .inl rfl⟩
  · rename_i index table heq
    obtain ⟨rfl, hex⟩ := removeIndex_ok heq
    refine ⟨rfl, ?_, .inr (staleCount_eraseP_lt h hex)⟩
    have parts := length_filter_not_add w.satisfied
      fun r => (w.coverage.forget name).isCovered r.columns
    simp only [List.length_append]
    omega

/-- Each step makes the measure of the worklist smaller. -/
theorem measure_step_lt (w : Worklist) (r : Requirement) (rest : List Requirement)
    (h : w.pending = r :: rest) : ({ w with pending := rest }.step r).measure < w.measure := by
  have whole : w.measure = w.staleCount * (rest.length + w.satisfied.length + 2) +
      (rest.length + 1) := by
    simp only [measure, h, List.length_cons]
    congr 2
    omega
  have bound : ∀ (v : Worklist) (name : String), v.staleCount ≤ w.staleCount →
      v.pending.length + v.satisfied.length = rest.length + w.satisfied.length →
      v.pending.length ≤ rest.length ∨ v.staleCount < w.staleCount →
      (v.create name r).measure < w.measure := by
    intro v name hstale hlen hpaid
    have hcreate := staleCount_create_le v name r
    have hpending : (v.create name r).pending = v.pending := rfl
    have hsatisfied : (v.create name r).satisfied.length = v.satisfied.length + 1 := by
      simp [create]
    rw [whole, measure, hpending, hsatisfied,
      show v.pending.length + (v.satisfied.length + 1) + 1 =
        rest.length + w.satisfied.length + 2 by omega]
    rcases hpaid with hle | hlt
    · have := Nat.mul_le_mul_right (rest.length + w.satisfied.length + 2)
        (Nat.le_trans hcreate hstale)
      omega
    · have := Nat.mul_le_mul_right (rest.length + w.satisfied.length + 2)
        (show (v.create name r).staleCount + 1 ≤ w.staleCount by omega)
      rw [Nat.add_mul] at this
      omega
  unfold step
  by_cases hcov : w.coverage.isCovered r.columns = true
  · rw [if_pos hcov, whole, measure]
    simp only [List.length_append, List.length_cons, List.length_nil]
    rw [show rest.length + (w.satisfied.length + (0 + 1)) + 1 =
      rest.length + w.satisfied.length + 2 by omega]
    exact Nat.add_lt_add_left (Nat.lt_succ_self _) _
  · rw [if_neg hcov]
    by_cases hcreated : { w with pending := rest }.hasCreated
        ({ w with pending := rest }.baseName r) = true
    · rw [if_pos hcreated]
      exact bound _ _ (Nat.le_refl _) rfl (.inl (Nat.le_refl _))
    · rw [if_neg hcreated]
      obtain ⟨-, hlen, hcase⟩ := dropStale_cases
        { w with pending := rest, ordinal := { w with pending := rest }.nextOrdinal r }
        ({ w with pending := rest }.baseName r) (Bool.eq_false_iff.2 hcreated)
      rcases hcase with heq | hlt
      · rw [heq]
        exact bound _ _ (Nat.le_refl _) rfl (.inl (Nat.le_refl _))
      · exact bound _ _ (Nat.le_of_lt hlt) hlen (.inr hlt)

/-- Deals with the pending requirements until none is left. -/
def run (w : Worklist) : Worklist :=
  match _h : w.pending with
  | [] => w
  | r :: rest => run ({ w with pending := rest }.step r)
termination_by w.measure
decreasing_by exact measure_step_lt w r rest _h

end Worklist

namespace Database

/-- What the foreign keys that point at a table need there, in the order they were linked. -/
def inboundRequirements (db : Database) (t : Table) : List Requirement :=
  (t.referrers.filterMap db.foreignKey?).map fun key => ⟨key.name, key.foreignColumns, .referenced⟩

/-- What the foreign keys of a table need there, in declaration order. -/
def outboundRequirements (t : Table) : List Requirement :=
  t.foreignKeys.map fun key => ⟨key.name, key.localColumns, .foreignKey⟩

/-- The requirements that can be met: those with columns, all of which the table has. -/
def requirements (db : Database) (t : Table) : List Requirement :=
  (db.inboundRequirements t ++ outboundRequirements t).filter fun r =>
    !r.columns.isEmpty && r.columns.all t.hasColumn

/-- The worklist that completing a table starts from. -/
def worklist (db : Database) (t : Table) : Worklist where
  table := t
  coverage := .ofTable t
  pending := db.requirements t

/-- Adds the indices that a table lacks, and lists them. -/
def synthesizeIndices (db : Database) (id : TableId) : Database × List SynthesizedIndex :=
  match db.table? id with
  | none => (db, [])
  | some t =>
    let completed := (db.worklist t).run
    (db.modifyTable id fun _ => completed.table, completed.created)

end Database

example : foreignKeyIndexName "FK_FK_2" = "FK_FI_2" := by decide +kernel
example : foreignKeyIndexName "fk_book_author" = "FI_fk_book_author" := by decide +kernel

end RelSchema
