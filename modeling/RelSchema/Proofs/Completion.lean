import Mathlib.Data.List.Basic
import RelSchema.Proofs.ColumnLookup
import RelSchema.Proofs.CoverageEntries
import RelSchema.Synthesis

/-!
# Completing a table

A run over the requirements of a table may replace indices that it finds, so a requirement that was
met can be lost again. The invariant of a run (`Worklist.Sound`) is that the working map never lists
more than the table has, that whatever counts as satisfied is covered in the working map, and that
no requirement is dropped. When nothing is pending any more, all requirements are covered by the
table itself (`completeIn_completedIn`), and a table that is complete already is left alone
(`run_worklist_of_completeIn`).
-/

namespace RelSchema

/-! ## Changing the indices of a table -/

namespace Table

/-- The table with other indices. -/
def withIndices (t : Table) (indices : List Index) : Table := { t with indices }

@[simp] theorem withIndices_indices (t : Table) (indices : List Index) :
    (t.withIndices indices).indices = indices := rfl

@[simp] theorem withIndices_withIndices (t : Table) (indices others : List Index) :
    (t.withIndices indices).withIndices others = t.withIndices others := rfl

theorem mem_constructs_addIndex {t : Table} {index : Index} {construct : String × List String} :
    construct ∈ (t.addIndex index).constructs ↔
      construct ∈ t.constructs ∨ construct = (index.name, index.columnNames) := by
  simp only [constructs, addIndex, List.map_append, List.map_cons, List.map_nil,
    List.mem_cons, List.mem_append, List.not_mem_nil, or_false]
  constructor
  · rintro (h | (h | h) | h)
    · exact Or.inl (Or.inl h)
    · exact Or.inl (Or.inr (Or.inl h))
    · exact Or.inr h
    · exact Or.inl (Or.inr (Or.inr h))
  · rintro ((h | h | h) | h)
    · exact Or.inl h
    · exact Or.inr (Or.inl (Or.inl h))
    · exact Or.inr (Or.inr h)
    · exact Or.inr (Or.inl (Or.inr h))

/-- Only constructs with the name of the index that was taken out can have disappeared. -/
theorem mem_constructs_eraseP {t : Table} {name : String} {construct : String × List String}
    (h : construct ∈ t.constructs) (hne : construct.1 ≠ name) :
    construct ∈ ({ t with indices := t.indices.eraseP (·.name == name) } : Table).constructs := by
  rcases List.mem_cons.1 h with h | h
  · exact List.mem_cons.2 (Or.inl h)
  · obtain ⟨index, hindex, rfl⟩ := List.mem_map.1 h
    refine List.mem_cons_of_mem _ (List.mem_map_of_mem ?_)
    rcases List.mem_append.1 hindex with hindex | hindex
    · exact List.mem_append_left _ ((List.mem_eraseP_of_neg (by simpa using hne)).2 hindex)
    · exact List.mem_append_right _ hindex

end Table

/-! ## Generated index names are not empty -/

theorem replaceLast?_ne_nil {word replacement text changed : List Char} (h : replacement ≠ [])
    (hc : Text.replaceLast? word replacement text = some changed) : changed ≠ [] := by
  cases text with
  | nil => cases hc
  | cons c rest =>
    rw [Text.replaceLast?] at hc
    split at hc
    · cases hc
      exact List.cons_ne_nil _ _
    · split at hc
      · cases hc
        exact List.append_ne_nil_of_left_ne_nil h _
      · cases hc

theorem append_ne_empty {s : String} (h : s ≠ "") (u : String) : s ++ u ≠ "" := by
  intro hu
  exact h (String.append_eq_empty_iff.1 hu).1

theorem foreignKeyIndexName_ne_empty (foreignKey : String) :
    foreignKeyIndexName foreignKey ≠ "" := by
  unfold foreignKeyIndexName
  split
  · rename_i changed heq
    intro hempty
    refine replaceLast?_ne_nil (by decide) heq ?_
    rw [← String.toList_ofList (l := changed), hempty]
    rfl
  · exact append_ne_empty (by decide) _

theorem referencedIndexName_ne_empty (foreignKey : String) (ordinal : Nat) :
    referencedIndexName foreignKey ordinal ≠ "" :=
  append_ne_empty (append_ne_empty (append_ne_empty (by decide) _) _) _

theorem freeIndexName_ne_empty {t : Table} {base : String} (h : base ≠ "") :
    freeIndexName t base ≠ "" := by
  unfold freeIndexName
  cases hf : List.find? _ _ with
  | none => exact h
  | some name =>
    obtain ⟨n, -, rfl⟩ := List.mem_map.1 (List.mem_of_find?_eq_some hf)
    exact append_ne_empty (append_ne_empty h _) _

namespace Worklist

/-! ## Runs, step by step -/

theorem run_of_pending_nil {w : Worklist} (h : w.pending = []) : w.run = w := by
  rw [run]
  split
  · rfl
  · rename_i heq
    rw [h] at heq
    cases heq

theorem run_of_pending_cons {w : Worklist} {r : Requirement} {rest : List Requirement}
    (h : w.pending = r :: rest) : w.run = ({ w with pending := rest }.step r).run := by
  rw [run]
  split
  · rename_i heq
    rw [h] at heq
    cases heq
  · rename_i heq
    rw [h] at heq
    cases heq
    rfl

/-- What every step keeps, the run keeps; at its end nothing is pending. -/
theorem run_induction {P : Worklist → Prop}
    (hstep : ∀ w r rest, w.pending = r :: rest → P w → P ({ w with pending := rest }.step r))
    {w : Worklist} (h : P w) : P w.run ∧ w.run.pending = [] := by
  -- not on the list of pending requirements, since a step can put some back on it
  induction hm : w.measure using Nat.strongRecOn generalizing w with
  | ind m ih =>
    cases hp : w.pending with
    | nil =>
      rw [run_of_pending_nil hp]
      exact ⟨h, hp⟩
    | cons r rest =>
      rw [run_of_pending_cons hp]
      exact ih _ (hm ▸ measure_step_lt w r rest hp) (hstep w r rest hp h) rfl

/-- A run that finds everything covered only ticks the requirements off. -/
theorem run_of_covered {w : Worklist}
    (h : ∀ r ∈ w.pending, w.coverage.isCovered r.columns = true) :
    w.run = { w with pending := [], satisfied := w.satisfied ++ w.pending } := by
  induction hp : w.pending generalizing w with
  | nil =>
    rw [run_of_pending_nil hp, List.append_nil]
    cases w
    cases hp
    rfl
  | cons r rest ih =>
    have hr : w.coverage.isCovered r.columns = true := h r (hp ▸ List.mem_cons_self)
    have hstep : { w with pending := rest }.step r =
        { w with pending := rest, satisfied := w.satisfied ++ [r] } := if_pos hr
    have hrest : ∀ q ∈ rest, w.coverage.isCovered q.columns = true :=
      fun q hq => h q (hp ▸ List.mem_cons_of_mem _ hq)
    rw [run_of_pending_cons hp, hstep, ih hrest rfl]
    simp

/-- What one step can do: tick the requirement off, add an index under a free name because the
base name was used in this run, or add one under the base name after dropping a stale index. -/
theorem step_cases (w : Worklist) (r : Requirement) :
    (w.coverage.isCovered r.columns = true ∧
      w.step r = { w with satisfied := w.satisfied ++ [r] }) ∨
    (w.hasCreated (w.baseName r) = true ∧
      w.step r = { w with ordinal := w.nextOrdinal r }.create
        (freeIndexName w.table (w.baseName r)) r) ∨
    (w.hasCreated (w.baseName r) = false ∧
      w.step r = ({ w with ordinal := w.nextOrdinal r }.dropStale (w.baseName r)).create
        (w.baseName r) r) := by
  unfold step
  by_cases hcov : w.coverage.isCovered r.columns = true
  · exact Or.inl ⟨hcov, if_pos hcov⟩
  · rw [if_neg hcov]
    cases hcreated : w.hasCreated (w.baseName r) with
    | true => exact Or.inr (Or.inl ⟨rfl, by simp [hcreated]⟩)
    | false => exact Or.inr (Or.inr ⟨rfl, by simp [hcreated]⟩)

theorem baseName_ne_empty (w : Worklist) (r : Requirement) : w.baseName r ≠ "" := by
  unfold baseName
  split
  · exact referencedIndexName_ne_empty _ _
  · exact foreignKeyIndexName_ne_empty _

theorem dropStale_eq (w : Worklist) (name : String) :
    w.dropStale name = w ∨
    w.dropStale name = { w with
      table := { w.table with indices := w.table.indices.eraseP (·.name == name) }
      coverage := w.coverage.forget name
      pending := w.satisfied.filter (fun r => !(w.coverage.forget name).isCovered r.columns) ++
        w.pending
      satisfied := w.satisfied.filter fun r => (w.coverage.forget name).isCovered r.columns } := by
  unfold dropStale
  split
  · exact Or.inl rfl
  · rename_i index table heq
    obtain ⟨rfl, -⟩ := removeIndex_ok heq
    exact Or.inr rfl

/-! ## The invariant -/

/-- The state of a run that has to meet `needs`, while the requirements of `hand` are taken off the
list but not dealt with yet. -/
structure Sound (needs hand : List Requirement) (w : Worklist) : Prop where
  tight : w.coverage.Tight
  /-- The working map lists no more than the table has. -/
  honest : ∀ key name, w.coverage.Lists key name → (CoverageMap.ofTable w.table).Lists key name
  satisfied : ∀ r ∈ w.satisfied, w.coverage.isCovered r.columns = true
  accounted : ∀ r ∈ needs, r ∈ hand ∨ r ∈ w.pending ∨ r ∈ w.satisfied
  nonempty : ∀ r, r ∈ hand ∨ r ∈ w.pending ∨ r ∈ w.satisfied → r.columns ≠ []

variable {needs : List Requirement} {w : Worklist} {r : Requirement}

theorem Sound.take {rest : List Requirement} (h : w.Sound needs []) (hp : w.pending = r :: rest) :
    Sound needs [r] { w with pending := rest } where
  tight := h.tight
  honest := h.honest
  satisfied := h.satisfied
  accounted q hq := by
    rcases h.accounted q hq with hq | hq | hq
    · cases hq
    · rw [hp, List.mem_cons] at hq
      rcases hq with rfl | hq
      · exact Or.inl (List.mem_singleton_self q)
      · exact Or.inr (Or.inl hq)
    · exact Or.inr (Or.inr hq)
  nonempty q hq := by
    apply h.nonempty q
    rcases hq with hq | hq | hq
    · exact Or.inr (Or.inl (hp ▸ List.mem_singleton.1 hq ▸ List.mem_cons_self))
    · exact Or.inr (Or.inl (hp ▸ List.mem_cons_of_mem _ hq))
    · exact Or.inr (Or.inr hq)

/-- A requirement that was dealt with counts as satisfied. -/
theorem Sound.accounted_append (h : w.Sound needs [r]) :
    ∀ q ∈ needs, q ∈ ([] : List Requirement) ∨ q ∈ w.pending ∨ q ∈ w.satisfied ++ [r] := by
  intro q hq
  rcases h.accounted q hq with hq | hq | hq
  · exact Or.inr (Or.inr (List.mem_append_right _ hq))
  · exact Or.inr (Or.inl hq)
  · exact Or.inr (Or.inr (List.mem_append_left _ hq))

theorem Sound.nonempty_append (h : w.Sound needs [r]) :
    ∀ q, q ∈ ([] : List Requirement) ∨ q ∈ w.pending ∨ q ∈ w.satisfied ++ [r] → q.columns ≠ [] := by
  intro q hq
  apply h.nonempty q
  rcases hq with hq | hq | hq
  · cases hq
  · exact Or.inr (Or.inl hq)
  · rcases List.mem_append.1 hq with hq | hq
    · exact Or.inr (Or.inr hq)
    · exact Or.inl hq

theorem Sound.tick (h : w.Sound needs [r]) (hr : w.coverage.isCovered r.columns = true) :
    Sound needs [] { w with satisfied := w.satisfied ++ [r] } where
  tight := h.tight
  honest := h.honest
  satisfied q hq := by
    rcases List.mem_append.1 hq with hq | hq
    · exact h.satisfied q hq
    · exact List.mem_singleton.1 hq ▸ hr
  accounted := h.accounted_append
  nonempty := h.nonempty_append

/-- Dropping a stale index takes up again exactly what only that index covered. -/
theorem Sound.dropStale {hand : List Requirement} (h : w.Sound needs hand) (name : String) :
    Sound needs hand (w.dropStale name) := by
  rcases w.dropStale_eq name with heq | heq <;> rw [heq]
  · exact h
  · -- what only the dropped index covered is pending again, the rest stays satisfied
    have hparts : ∀ q, q ∈ w.satisfied ↔
        q ∈ w.satisfied.filter (fun r => !(w.coverage.forget name).isCovered r.columns) ∨
        q ∈ w.satisfied.filter fun r => (w.coverage.forget name).isCovered r.columns := by
      intro q
      simp only [List.mem_filter, Bool.not_eq_true']
      cases (w.coverage.forget name).isCovered q.columns <;> simp
    constructor
    case tight => exact CoverageMap.tight_forget _ _
    case honest =>
      intro key n hlists
      obtain ⟨hold, hne⟩ := CoverageMap.lists_forget.1 hlists
      obtain ⟨construct, hmem, rfl, hkey⟩ := CoverageMap.lists_ofTable.1 (h.honest key n hold)
      exact CoverageMap.lists_ofTable.2
        ⟨construct, Table.mem_constructs_eraseP hmem hne, rfl, hkey⟩
    case satisfied => exact fun q hq => (List.mem_filter.1 hq).2
    case accounted =>
      intro q hq
      rcases h.accounted q hq with hq | hq | hq
      · exact Or.inl hq
      · exact Or.inr (Or.inl (List.mem_append_right _ hq))
      · rcases (hparts q).1 hq with hq | hq
        · exact Or.inr (Or.inl (List.mem_append_left _ hq))
        · exact Or.inr (Or.inr hq)
    case nonempty =>
      intro q hq
      apply h.nonempty q
      rcases hq with hq | hq | hq
      · exact Or.inl hq
      · rcases List.mem_append.1 hq with hq | hq
        · exact Or.inr (Or.inr ((hparts q).2 (Or.inl hq)))
        · exact Or.inr (Or.inl hq)
      · exact Or.inr (Or.inr ((hparts q).2 (Or.inr hq)))

theorem Sound.create (h : w.Sound needs [r]) (name : String) :
    Sound needs [] (w.create name r) where
  tight := CoverageMap.tight_record h.tight name r.columns
  honest key n hlists := by
    rcases CoverageMap.lists_record.1 hlists with hold | ⟨hkey, rfl⟩
    · obtain ⟨construct, hmem, rfl, hkey⟩ := CoverageMap.lists_ofTable.1 (h.honest key n hold)
      exact CoverageMap.lists_ofTable.2
        ⟨construct, Table.mem_constructs_addIndex.2 (Or.inl hmem), rfl, hkey⟩
    · refine CoverageMap.lists_ofTable.2
        ⟨(n, r.columns), Table.mem_constructs_addIndex.2 (Or.inr ?_), rfl, hkey⟩
      have hcolumns : (Index.on r.columns).resetSizes.columnNames = r.columns := by simp
      exact Prod.ext rfl hcolumns.symm
  satisfied q hq := by
    refine (CoverageMap.isCovered_iff (CoverageMap.tight_record h.tight name r.columns)).2 ?_
    rcases List.mem_append.1 hq with hq | hq
    · obtain ⟨n, hn⟩ := (CoverageMap.isCovered_iff h.tight).1 (h.satisfied q hq)
      exact ⟨n, CoverageMap.lists_record.2 (Or.inl hn)⟩
    · rw [List.mem_singleton.1 hq]
      have hne := h.nonempty r (Or.inl (List.mem_singleton_self r))
      exact ⟨name, CoverageMap.lists_record.2
        (Or.inr ⟨CoverageMap.columnKey_mem_servedKeys hne, rfl⟩)⟩
  accounted := h.accounted_append
  nonempty := h.nonempty_append

/-- The ordinal is for names only. -/
theorem Sound.count {hand : List Requirement} (h : w.Sound needs hand) (ordinal : Nat) :
    Sound needs hand { w with ordinal } :=
  ⟨h.tight, h.honest, h.satisfied, h.accounted, h.nonempty⟩

/-- **Step.** Dealing with a pending requirement keeps the invariant. -/
theorem Sound.step {rest : List Requirement} (h : w.Sound needs []) (hp : w.pending = r :: rest) :
    Sound needs [] ({ w with pending := rest }.step r) := by
  have htaken := h.take hp
  rcases step_cases { w with pending := rest } r with ⟨hcov, heq⟩ | ⟨-, heq⟩ | ⟨-, heq⟩ <;> rw [heq]
  · exact htaken.tick hcov
  · exact (htaken.count _).create _
  · exact ((htaken.count _).dropStale _).create _

/-- **Run.** At the end the table covers every requirement that the run set out with. -/
theorem Sound.covered_run (h : w.Sound needs []) (hr : r ∈ needs) :
    (CoverageMap.ofTable w.run.table).isCovered r.columns = true := by
  obtain ⟨hend, hnil⟩ := run_induction (fun _ _ _ hp h => h.step hp) h
  have hsat : r ∈ w.run.satisfied := by
    rcases hend.accounted r hr with hin | hin | hin
    · cases hin
    · rw [hnil] at hin
      cases hin
    · exact hin
  obtain ⟨name, hname⟩ := (CoverageMap.isCovered_iff hend.tight).1 (hend.satisfied r hsat)
  exact (CoverageMap.isCovered_iff (CoverageMap.tight_ofTable _)).2 ⟨name, hend.honest _ _ hname⟩

/-! ## What a run leaves alone -/

/-- A step changes the indices of the table and nothing else of it. -/
theorem table_step (w : Worklist) (r : Requirement) :
    (w.step r).table = w.table.withIndices (w.step r).table.indices := by
  rcases step_cases w r with ⟨-, heq⟩ | ⟨-, heq⟩ | ⟨-, heq⟩ <;> rw [heq]
  · rfl
  · rfl
  · rcases Worklist.dropStale_eq { w with ordinal := w.nextOrdinal r } (w.baseName r) with
      hd | hd <;> rw [hd] <;> rfl

theorem table_run (w : Worklist) : w.run.table = w.table.withIndices w.run.table.indices := by
  refine (run_induction (P := fun v => v.table = w.table.withIndices v.table.indices) ?_ rfl).1
  intro v r rest _ hv
  rw [table_step, Table.withIndices_indices]
  show v.table.withIndices _ = _
  rw [hv, Table.withIndices_withIndices]

/-- The indices that a run adds have names. -/
theorem name_ne_empty_of_mem_run {w : Worklist} {index : Index}
    (h : index ∈ w.run.table.indices) : index ∈ w.table.indices ∨ index.name ≠ "" := by
  refine (run_induction
    (P := fun v => ∀ index ∈ v.table.indices, index ∈ w.table.indices ∨ index.name ≠ "")
    ?_ fun _ h => Or.inl h).1 index h
  clear h index
  intro v r rest _ hv index hindex
  -- the one index that a step can add has a generated name
  have hcreate : ∀ (u : Worklist) (name : String), name ≠ "" →
      (∀ index ∈ u.table.indices, index ∈ v.table.indices) →
      index ∈ (u.create name r).table.indices → index ∈ w.table.indices ∨ index.name ≠ "" := by
    intro u name hname hsub hmem
    rcases List.mem_append.1 hmem with hold | hnew
    · exact hv index (hsub index hold)
    · rw [List.mem_singleton.1 hnew]
      exact Or.inr hname
  rcases step_cases { v with pending := rest } r with ⟨-, heq⟩ | ⟨-, heq⟩ | ⟨-, heq⟩ <;>
    rw [heq] at hindex
  · exact hv index hindex
  · exact hcreate _ _ (freeIndexName_ne_empty (baseName_ne_empty _ r)) (fun _ h => h) hindex
  · refine hcreate _ _ (baseName_ne_empty _ r) ?_ hindex
    rcases Worklist.dropStale_eq _ _ with hd | hd <;> rw [hd]
    · exact fun _ h => h
    · exact fun _ h => List.mem_of_mem_eraseP h

end Worklist

/-! ## Complete tables -/

namespace Database

variable {db db' : Database} {t t' : Table}

theorem mem_requirements_iff {r : Requirement} :
    r ∈ db.requirements t ↔
      ((∃ id ∈ t.referrers, ∃ key, db.foreignKey? id = some key ∧
          r = ⟨key.name, key.foreignColumns, .referenced⟩) ∨
        ∃ key ∈ t.foreignKeys, r = ⟨key.name, key.localColumns, .foreignKey⟩) ∧
      r.columns ≠ [] ∧ ∀ column ∈ r.columns, column ∈ t.columnNames := by
  simp only [requirements, inboundRequirements, outboundRequirements, List.mem_filter,
    List.mem_append, List.mem_map, List.mem_filterMap, Bool.and_eq_true, List.all_eq_true,
    Table.hasColumn_iff]
  constructor
  · rintro ⟨⟨key, ⟨id, hid, hkey⟩, rfl⟩ | ⟨key, hkey, rfl⟩, hne, hall⟩
    · exact ⟨Or.inl ⟨id, hid, key, hkey, rfl⟩, by simpa using hne, hall⟩
    · exact ⟨Or.inr ⟨key, hkey, rfl⟩, by simpa using hne, hall⟩
  · rintro ⟨⟨id, hid, key, hkey, rfl⟩ | ⟨key, hkey, rfl⟩, hne, hall⟩
    · exact ⟨Or.inl ⟨key, ⟨id, hid, hkey⟩, rfl⟩, by simpa using hne, hall⟩
    · exact ⟨Or.inr ⟨key, hkey, rfl⟩, by simpa using hne, hall⟩

/-- Of the rest of the database the requirements depend on the keys behind the referrers only. -/
theorem requirements_congr (h : ∀ id ∈ t.referrers, db.foreignKey? id = db'.foreignKey? id) :
    db.requirements t = db'.requirements t := by
  have hin : db.inboundRequirements t = db'.inboundRequirements t := by
    rw [inboundRequirements, inboundRequirements, List.filterMap_congr h]
  rw [requirements, requirements, hin]

theorem requirements_withIndices (indices : List Index) :
    db.requirements (t.withIndices indices) = db.requirements t := rfl

end Database

namespace Table

variable {db db' : Database} {t : Table}

/-- A table is complete when its map covers all that its own foreign keys and the ones that point
at it need there. -/
def CompleteIn (db : Database) (t : Table) : Prop :=
  ∀ r ∈ db.requirements t, (CoverageMap.ofTable t).isCovered r.columns = true

/-- The table with the indices added that it lacks. -/
def completedIn (db : Database) (t : Table) : Table := (db.worklist t).run.table

theorem completedIn_congr (h : ∀ id ∈ t.referrers, db.foreignKey? id = db'.foreignKey? id) :
    t.completedIn db = t.completedIn db' := by
  rw [completedIn, completedIn, Database.worklist, Database.worklist,
    Database.requirements_congr h]

theorem completeIn_congr (h : ∀ id ∈ t.referrers, db.foreignKey? id = db'.foreignKey? id) :
    t.CompleteIn db ↔ t.CompleteIn db' := by
  rw [CompleteIn, CompleteIn, Database.requirements_congr h]

theorem completedIn_eq_withIndices (db : Database) (t : Table) :
    t.completedIn db = t.withIndices (t.completedIn db).indices :=
  Worklist.table_run (db.worklist t)

theorem sound_worklist (db : Database) (t : Table) :
    (db.worklist t).Sound (db.requirements t) [] where
  tight := CoverageMap.tight_ofTable t
  honest _ _ h := h
  satisfied _ h := by cases h
  accounted _ h := Or.inr (Or.inl h)
  nonempty r h := by
    rcases h with h | h | h
    · cases h
    · exact (Database.mem_requirements_iff.1 h).2.1
    · cases h

/-- **Completing a table completes it**, whatever indices were replaced on the way. -/
theorem completeIn_completedIn (db : Database) (t : Table) : (t.completedIn db).CompleteIn db := by
  intro r hr
  rw [completedIn_eq_withIndices, Database.requirements_withIndices] at hr
  exact (sound_worklist db t).covered_run hr

/-- **A complete table is left alone**, and no index is reported for it. -/
theorem run_worklist_of_completeIn (h : t.CompleteIn db) :
    (db.worklist t).run.table = t ∧ (db.worklist t).run.created = [] := by
  rw [Worklist.run_of_covered (w := db.worklist t) h]
  exact ⟨rfl, rfl⟩

theorem completedIn_of_completeIn (h : t.CompleteIn db) : t.completedIn db = t :=
  (run_worklist_of_completeIn h).1

end Table

end RelSchema
