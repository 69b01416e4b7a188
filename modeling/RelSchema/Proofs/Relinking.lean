import RelSchema.Proofs.Idempotence
import RelSchema.Proofs.LinkOutcomes

/-!
# Linking twice

The database that a run of linking leaves is settled, whatever state the run found it in. Each call
of a second run then adds neither an edge nor an index, and otherwise comes to what the same call
came to in the first run (`Resolver.linkOutcomes_again`). So a second run is safe, and its report
differs from the first one in the added indices only.
-/

namespace RelSchema

namespace Resolver

variable {r : Resolver} {s : Resolution} {db : Database} {ids : List TableId}

/-! ## Calls on a settled database -/

theorem quiet_keyWalk_of_settled (h : db.Settled) (id : TableId) :
    (r.keyWalk db id).state.outcome.quiet = (r.keyWalk db id).state.outcome :=
  LinkOutcome.quiet_of_additions (keyWalk_of_settled h id).2

/-- On a settled database the calls of a run add nothing. -/
theorem map_quiet_along_of_settled (hok : (Walk.along r.linkTable s ids).error = none)
    (h : s.db.Settled) : (s.db.linkOutcomes r.check ids).map LinkOutcome.quiet =
      s.db.linkOutcomes r.check ids := by
  induction ids generalizing s with
  | nil => rfl
  | cons id rest ih =>
    obtain ⟨hfirst, hrest, -⟩ := along_linkTable_cons hok
    have hdb : (r.linkTable s id).state.db = s.db :=
      (db_linkTable r s id).trans (keyWalk_of_settled h id).1
    have hnext := ih hrest (by rwa [hdb])
    rw [db_linkTable] at hnext
    rw [linkOutcomes_cons hfirst, List.map_cons, hnext, quiet_keyWalk_of_settled h]

/-! ## The second run -/

theorem settled_link (h : (r.link s).error = none) : (r.link s).state.db.Settled := by
  rw [db_link h]
  exact Database.settled_linked s.db

theorem outline_link (h : (r.link s).error = none) :
    (r.link s).state.db.outline = s.db.outline := by
  rw [db_link h, Database.outline_linked]

/-- A run that went through goes through again, also when it checks references strictly. -/
theorem error_link_again (h : (r.link s).error = none) (report : Report) :
    (r.link ⟨(r.link s).state.db, report⟩).error = none :=
  error_link_congr (outline_link h) h

/-- Call by call, the second run does what the first one did, and adds nothing. -/
theorem linkOutcomes_again (h : (r.link s).error = none) :
    (r.link s).state.db.linkOutcomes r.check (r.link s).state.db.tableIds =
      (s.db.linkOutcomes r.check s.db.tableIds).map LinkOutcome.quiet := by
  have houtline := outline_link h
  have hagain := error_link_again h (r.link s).state.report
  have hids : (r.link s).state.db.tableIds = s.db.tableIds := by
    rw [Database.tableIds_eq_outline, Database.tableIds_eq_outline, houtline]
  have hplain : (r.link s).state.db.plainOutcome = s.db.plainOutcome :=
    funext (Database.plainOutcome_congr houtline)
  calc (r.link s).state.db.linkOutcomes r.check (r.link s).state.db.tableIds
      = ((r.link s).state.db.linkOutcomes r.check (r.link s).state.db.tableIds).map
          LinkOutcome.quiet := (map_quiet_along_of_settled hagain (settled_link h)).symm
    _ = (r.link s).state.db.tableIds.map (r.link s).state.db.plainOutcome :=
          map_quiet_linkOutcomes hagain
    _ = s.db.tableIds.map s.db.plainOutcome := by rw [hids, hplain]
    _ = (s.db.linkOutcomes r.check s.db.tableIds).map LinkOutcome.quiet :=
          (map_quiet_linkOutcomes h).symm

/-- **Linking twice.** After a run of linking that goes through, a second one goes through as well
and leaves the database as it is. No call of it adds an edge or an index, and otherwise each call
comes to what it came to in the first run; so both runs count the same keys and give the same
warnings in the same order. -/
theorem link_again (h : (r.link s).error = none) (report : Report) :
    (r.link ⟨(r.link s).state.db, report⟩).error = none ∧
    (r.link ⟨(r.link s).state.db, report⟩).state.db = (r.link s).state.db ∧
    (r.link s).state.db.linkOutcomes r.check (r.link s).state.db.tableIds =
      (s.db.linkOutcomes r.check s.db.tableIds).map LinkOutcome.quiet ∧
    (r.link ⟨(r.link s).state.db, report⟩).state.report.summary.indicesSynthesized =
      report.summary.indicesSynthesized ∧
    ((r.link s).state.report.summary.foreignKeysLinked =
        s.report.summary.foreignKeysLinked + s.db.foreignKeyCount ∧
      (r.link ⟨(r.link s).state.db, report⟩).state.report.summary.foreignKeysLinked =
        report.summary.foreignKeysLinked + s.db.foreignKeyCount) ∧
    (r.link s).state.report.warnings = s.report.warnings ++ s.db.missing.map (·.warning) ∧
      (r.link ⟨(r.link s).state.db, report⟩).state.report.warnings =
        report.warnings ++ s.db.missing.map (·.warning) := by
  have hagain := error_link_again h report
  obtain ⟨hdb, -, hindices⟩ := link_of_settled (r := r)
    (s := ⟨(r.link s).state.db, report⟩) (settled_link h)
  have hkeys := foreignKeysLinked_link hagain
  rw [Database.foreignKeyCount_congr (outline_link h)] at hkeys
  have hwarnings := warnings_link hagain
  rw [Database.warnings_missing_congr (outline_link h)] at hwarnings
  exact ⟨hagain, hdb, linkOutcomes_again h, hindices, ⟨foreignKeysLinked_link h, hkeys⟩,
    warnings_link h, hwarnings⟩

/-- Reviews of books. The author of a book is not declared, and an index over the rating has the
name that the foreign key of a review gives to its own. -/
def reviewedBooks : Database :=
  ({ name := "shop", platform := .mysql } : Database).withTables
    [{ name := "review"
       columns := (Columns.empty.push
         { name := "book_id", columnType := .integer } (Columns.not_contains_empty "book_id")).push
         { name := "rating", columnType := .integer } (by decide +kernel)
       foreignKeys :=
         [{ name := "FK_1", foreignTable := "book", references := [⟨"book_id", "id"⟩] }]
       indices := [{ name := "FI_1", columns := [{ name := "rating" }] }] },
     { name := "book"
       columns := (Columns.empty.push
         { name := "id", columnType := .integer } (Columns.not_contains_empty "id")).push
         { name := "author_id", columnType := .integer } (by decide +kernel)
       foreignKeys :=
         [{ name := "FK_2", foreignTable := "author", references := [⟨"author_id", "id"⟩] }] }]

def firstLink : Walk Resolution :=
  (standard .tolerant).link ⟨reviewedBooks, { timestamp := "1" }⟩

def secondLink : Walk Resolution :=
  (standard .tolerant).link ⟨firstLink.state.db, { timestamp := "2" }⟩

/-- The first run adds three indices, one in the place of the index over the rating, and warns of
the author; the second one warns again and adds nothing. -/
theorem link_again_reviewedBooks : firstLink.error = none ∧
    firstLink.state.report.summary.indicesSynthesized = 3 ∧
    firstLink.state.report.warnings.map (·.code) = [.refMissingTable] ∧
    secondLink.error = none ∧ secondLink.state.db = firstLink.state.db ∧
    secondLink.state.report.summary.indicesSynthesized = 0 ∧
    secondLink.state.report.summary.foreignKeysLinked = 2 ∧
    secondLink.state.report.warnings = firstLink.state.report.warnings := by
  have hok : firstLink.error = none := by decide +kernel
  obtain ⟨hagain, hdb, -, hindices, ⟨-, hkeys⟩, hwarnings, hwarnings'⟩ :=
    link_again hok { timestamp := "2" }
  exact ⟨hok, by decide +kernel, by decide +kernel, hagain, hdb, hindices, hkeys,
    hwarnings'.trans hwarnings.symm⟩

end Resolver

end RelSchema
