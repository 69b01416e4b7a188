import Mathlib.Algebra.GroupWithZero.Nat
import RelSchema.Resolution

/-!
# What a report counts

A summary counts the work of a run and the diagnostics that were noted. Noting a diagnostic leaves
the work alone, and each kind of outcome adds its own numbers to it.
-/

namespace RelSchema

namespace ReportSummary

/-- The work that was done, without the counts of diagnostics. -/
def work (s : ReportSummary) : ReportSummary :=
  { s with total := 0, errors := 0, warnings := 0, info := 0 }

/-- More of each kind of work: tables, foreign keys, names and indices. -/
def more (s : ReportSummary) (tables keys names indices : Nat) : ReportSummary :=
  { s with
    tablesResolved := s.tablesResolved + tables
    foreignKeysLinked := s.foreignKeysLinked + keys
    namesAssigned := s.namesAssigned + names
    indicesSynthesized := s.indicesSynthesized + indices }

theorem work_count (s : ReportSummary) (severity : Severity) :
    (s.count severity).work = s.work := by
  cases severity <;> rfl

theorem more_more (s : ReportSummary) (t k n i t' k' n' i' : Nat) :
    (s.more t k n i).more t' k' n' i' = s.more (t + t') (k + k') (n + n') (i + i') := by
  simp only [more, Nat.add_assoc]

variable {s s' : ReportSummary} {t k n i : Nat}

theorem tablesResolved_of_work (h : s'.work = s.work.more t k n i) :
    s'.tablesResolved = s.tablesResolved + t := by
  show s'.work.tablesResolved = _
  rw [h]
  rfl

theorem foreignKeysLinked_of_work (h : s'.work = s.work.more t k n i) :
    s'.foreignKeysLinked = s.foreignKeysLinked + k := by
  show s'.work.foreignKeysLinked = _
  rw [h]
  rfl

theorem namesAssigned_of_work (h : s'.work = s.work.more t k n i) :
    s'.namesAssigned = s.namesAssigned + n := by
  show s'.work.namesAssigned = _
  rw [h]
  rfl

theorem indicesSynthesized_of_work (h : s'.work = s.work.more t k n i) :
    s'.indicesSynthesized = s.indicesSynthesized + i := by
  show s'.work.indicesSynthesized = _
  rw [h]
  rfl

end ReportSummary

namespace Report

theorem work_addAll (r : Report) (ds : List Diagnostic) :
    (r.addAll ds).summary.work = r.summary.work := by
  induction ds generalizing r with
  | nil => rfl
  | cons d rest ih => exact (ih _).trans (ReportSummary.work_count _ _)

theorem work_foldl_addSynthesized (r : Report) (indices : List SynthesizedIndex) :
    (indices.foldl addSynthesized r).summary.work =
      r.summary.work.more 0 0 0 indices.length := by
  induction indices generalizing r with
  | nil => rfl
  | cons index rest ih =>
    have hone : (r.addSynthesized index).summary.work = r.summary.work.more 0 0 0 1 :=
      ReportSummary.work_count _ _
    rw [List.foldl_cons, ih, hone, ReportSummary.more_more, List.length_cons, Nat.add_comm 1]

/-- A finalized table counts as one, with its names and its indices over key suffixes. -/
theorem work_addFinalized (r : Report) (outcome : FinalizeOutcome) :
    (r.addFinalized outcome).summary.work =
      r.summary.work.more 1 0 outcome.names.length outcome.heavyIndices.length := by
  unfold addFinalized
  rw [work_foldl_addSynthesized]
  simp only [ReportSummary.work, ReportSummary.more, Nat.add_zero]

theorem work_foldl_addFinalized (r : Report) (outcomes : List FinalizeOutcome) :
    (outcomes.foldl addFinalized r).summary.work = r.summary.work.more outcomes.length 0
      (outcomes.flatMap (·.names)).length (outcomes.flatMap (·.heavyIndices)).length := by
  induction outcomes generalizing r with
  | nil => rfl
  | cons outcome rest ih =>
    rw [List.foldl_cons, ih, work_addFinalized, ReportSummary.more_more, List.length_cons,
      List.flatMap_cons, List.flatMap_cons, List.length_append, List.length_append,
      Nat.add_comm 1]

/-- A linked table counts with its foreign keys and the indices that were added for them. -/
theorem work_addLinked (r : Report) (outcome : LinkOutcome) :
    (r.addLinked outcome).summary.work =
      r.summary.work.more 0 outcome.foreignKeys 0 outcome.synthesized.length := by
  unfold addLinked
  rw [work_foldl_addSynthesized, work_addAll]
  simp only [ReportSummary.work, ReportSummary.more, Nat.add_zero]

theorem work_foldl_addLinked (r : Report) (outcomes : List LinkOutcome) :
    (outcomes.foldl addLinked r).summary.work = r.summary.work.more 0
      (outcomes.map (·.foreignKeys)).sum 0 (outcomes.flatMap (·.synthesized)).length := by
  induction outcomes generalizing r with
  | nil => rfl
  | cons outcome rest ih =>
    rw [List.foldl_cons, ih, work_addLinked, ReportSummary.more_more, List.map_cons, List.sum_cons,
      List.flatMap_cons, List.length_append]

end Report

end RelSchema
