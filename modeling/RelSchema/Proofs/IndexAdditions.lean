import RelSchema.Proofs.CompletionRounds

/-!
# Indices that were added

An index counts as added when the table had none before over the same columns that has its name, or
had no name yet. Completing a table reports exactly the indices that it adds, in the order in which
they then stand in the table (`Table.addedIndices_completedIn`): the indices of the table are some of
the first ones, in their order, followed by the reported ones, and a reported one was not there
before, since it leads an old index only where the old one's name was used.
-/

namespace RelSchema

namespace Table

/-- Whether the index was there before: over the same columns, under its name or without a name. -/
def HadIndex (t : Table) (index : Index) : Prop :=
  ∃ old ∈ t.indices, old.columnNames = index.columnNames ∧ (old.name = index.name ∨ old.name = "")

instance (t : Table) (index : Index) : Decidable (t.HadIndex index) :=
  inferInstanceAs (Decidable (∃ old ∈ t.indices, _))

/-- The indices of the table after a change that were not there before it. -/
def addedIndices (before after : Table) : List Index :=
  after.indices.filter fun index => ¬ before.HadIndex index

/-- What was there stands in front of what was added. -/
theorem addedIndices_eq {before after : Table} {old new : List Index}
    (h : after.indices = old ++ new) (hold : ∀ index ∈ old, before.HadIndex index)
    (hnew : ∀ index ∈ new, ¬ before.HadIndex index) : before.addedIndices after = new := by
  rw [addedIndices, h, List.filter_append]
  have hnone : old.filter (fun index => ¬ before.HadIndex index) = [] := by
    simpa using hold
  have hall : new.filter (fun index => ¬ before.HadIndex index) = new := by
    simpa using hnew
  rw [hnone, hall, List.nil_append]

/-! ## Completing a table -/

variable {db : Database} {t : Table}

theorem mem_constructs {index : Index} (h : index ∈ t.indices ++ t.uniques) :
    (index.name, index.columnNames) ∈ t.constructs :=
  List.mem_cons_of_mem _ (List.mem_map.2 ⟨index, h, rfl⟩)

/-- A reported index was not there: it leads an old index over the same columns, so the name of this
one was reported before, and no name is reported twice or empty. -/
theorem not_hadIndex_of_mem_createdIn {entry : SynthesizedIndex} (hentry : entry ∈ t.createdIn db) :
    ¬ t.HadIndex entry.index := by
  rintro ⟨old, hold, hcolumns, hname⟩
  rw [SynthesizedIndex.columnNames_index] at hcolumns
  have hrun := t.completing_run db
  change entry ∈ (db.worklist t).run.created at hentry
  obtain ⟨earlier, later, hsplit⟩ := List.append_of_mem hentry
  have hconstruct := mem_constructs (List.mem_append_left t.uniques hold)
  obtain ⟨hearlier, -⟩ := (hrun.added earlier entry later hsplit).old _ hconstruct
    (hcolumns ▸ List.prefix_rfl)
  rcases hname with hname | hname
  · have hnodup := hrun.replacing.nodup
    rw [hsplit, List.map_append, List.map_cons] at hnodup
    exact (List.nodup_append.1 hnodup).2.2 _ hearlier _ List.mem_cons_self hname
  · obtain ⟨other, hother, hsame⟩ := List.mem_map.1 hearlier
    refine (hrun.replacing.entries other ?_).2 (hsame.trans hname)
    rw [hsplit]
    exact List.mem_append_left _ hother

/-- **Completing a table reports what it adds**, in the order of the table. -/
theorem addedIndices_completedIn (db : Database) (t : Table) :
    t.addedIndices (t.completedIn db) = (t.createdIn db).map (·.index) := by
  refine addedIndices_eq (t.replacing_run db).indices ?_ ?_
  · exact fun index hindex =>
      ⟨index, (t.remainingIndices_sublist _).subset hindex, rfl, Or.inl rfl⟩
  · exact List.forall_mem_map.2 fun entry hentry => not_hadIndex_of_mem_createdIn hentry

end Table

end RelSchema
