import Mathlib.Logic.Function.Iterate
import RelSchema.Proofs.IndexReplacement

/-!
# The rounds of completing a table

A run deals with one pending requirement in each round, and a round may put requirements back in
front of the others. It then has taken out an index that the table started with, and of these there
are finitely many. What the working map knows of the reported indices it keeps for good
(`Worklist.Remembers`), since only indices with unused names are taken out; so a requirement that got
an index is covered from then on and gets no second one, and each new index leads none of those
before it. The main statement is `Database.synthesizeIndices_rounds`.
-/

namespace RelSchema

/-! ## Lists that grow at their end -/

/-- What holds of every element and those before it, and of one more element and the whole list,
holds in the longer list. -/
theorem forall_split_snoc {α : Type} {P : List α → α → Prop} {l : List α} {b : α}
    (h : ∀ before a after, l = before ++ a :: after → P before a) (hlast : P l b) :
    ∀ before a after, l ++ [b] = before ++ a :: after → P before a := by
  intro before a after hsplit
  rcases List.eq_nil_or_concat after with rfl | ⟨front, c, rfl⟩
  · obtain ⟨rfl, hb⟩ := List.append_inj' hsplit rfl
    cases hb
    exact hlast
  · rw [List.concat_eq_append, ← List.cons_append, ← List.append_assoc] at hsplit
    exact h before a front (List.append_inj_left' hsplit rfl)

theorem pairwise_of_forall_split {α : Type} {R : α → α → Prop} {l : List α}
    (h : ∀ before a after, l = before ++ a :: after → ∀ b ∈ before, R b a) : l.Pairwise R := by
  induction l using List.reverseRecOn with
  | nil => exact List.Pairwise.nil
  | append_singleton l a ih =>
    refine List.pairwise_append.2 ⟨ih fun before b after hsplit => ?_, List.pairwise_singleton _ _, ?_⟩
    · apply h before b (after ++ [a])
      rw [hsplit, List.append_assoc, List.cons_append]
    · intro b hb c hc
      rw [List.mem_singleton.1 hc]
      exact h l a [] rfl b hb

namespace CoverageMap

/-- A construct serves every non-empty list that it begins with. -/
theorem columnKey_mem_servedKeys_of_isPrefix {columns whole : List String} (hne : columns ≠ [])
    (h : columns <+: whole) : columnKey columns ∈ servedKeys whole :=
  List.mem_map_of_mem (mem_leadingLists_iff.2 ⟨hne, h⟩)

end CoverageMap

namespace Worklist

variable {start : Table} {needs : List Requirement} {w : Worklist} {r : Requirement}

/-! ## What the working map keeps -/

/-- What is listed under other names stays. -/
theorem lists_dropStale {key name other : String} (hne : other ≠ name)
    (h : w.coverage.Lists key other) : (w.dropStale name).coverage.Lists key other := by
  rcases w.dropStale_eq name with heq | heq
  · rwa [heq]
  · rw [heq]
    exact CoverageMap.lists_forget.2 ⟨h, hne⟩

/-- What the working map lists however many indices were taken out: all reported indices, and what
the table started with, but for the names under which a reported index took an old one's place. -/
structure Remembers (start : Table) (w : Worklist) : Prop where
  reported : ∀ entry ∈ w.created, ∀ key ∈ CoverageMap.servedKeys entry.columns,
    w.coverage.Lists key entry.name
  old : ∀ construct ∈ start.constructs,
    (construct.1 ∈ w.created.map (·.name) → construct.1 ∉ start.indexNames) →
      ∀ key ∈ CoverageMap.servedKeys construct.2, w.coverage.Lists key construct.1

theorem Remembers.step (h : w.Remembers start) (hw : w.Replacing start) (r : Requirement) :
    (w.step r).Remembers start := by
  by_cases hcov : w.coverage.isCovered r.columns = true
  · rw [step_of_covered hcov]
    exact ⟨h.reported, h.old⟩
  · have hcoverage : (w.step r).coverage =
        ({ w with ordinal := w.nextOrdinal r }.dropStale (w.indexName r)).coverage.record
          (w.indexName r) r.columns := by
      rw [step_of_uncovered hcov, create]
    constructor
    case reported =>
      rw [created_step_of_uncovered hcov, hcoverage]
      intro entry hentry key hkey
      rcases List.mem_append.1 hentry with hentry | hentry
      · have hother := unused_indexName hw.mem_indexNames r entry hentry
        exact CoverageMap.lists_record.2
          (Or.inl (lists_dropStale hother (h.reported entry hentry key hkey)))
      · rw [List.mem_singleton.1 hentry] at hkey ⊢
        exact CoverageMap.lists_record.2 (Or.inr ⟨hkey, rfl⟩)
    case old =>
      rw [created_step_of_uncovered hcov, hcoverage, List.map_append, List.map_singleton]
      intro construct hconstruct hspared key hkey
      have hlisted := h.old construct hconstruct
        (fun hmem => hspared (List.mem_append_left _ hmem)) key hkey
      refine CoverageMap.lists_record.2 (Or.inl ?_)
      by_cases hname : construct.1 = w.indexName r
      · -- nothing is taken out under this name, since no old index has it
        have hnone : w.indexName r ∉ w.table.indexNames := by
          intro hmem
          refine hspared (by simp [hname]) ?_
          obtain ⟨old, hold, hsame⟩ := hw.exists_remaining (unused_indexName hw.mem_indexNames r) hmem
          rw [hname, ← hsame]
          exact List.mem_map_of_mem ((start.remainingIndices_sublist _).subset hold)
        rw [dropStale_of_not_mem (w := { w with ordinal := w.nextOrdinal r }) hnone]
        exact hlisted
      · exact lists_dropStale hname hlisted

/-! ## Why an index was added -/

/-- What was found when an index was added after these: a requirement with its columns, which lead
none of the earlier ones, and lead what the table started with only where an earlier one had taken
an old one's place under the name. -/
structure AddedAfter (start : Table) (needs : List Requirement) (earlier : List SynthesizedIndex)
    (entry : SynthesizedIndex) : Prop where
  required : ∃ r ∈ needs, entry.columns = r.columns
  nonempty : entry.columns ≠ []
  reported : ∀ other ∈ earlier, ¬ entry.columns <+: other.columns
  old : ∀ construct ∈ start.constructs, entry.columns <+: construct.2 →
    construct.1 ∈ earlier.map (·.name) ∧ construct.1 ∈ start.indexNames

/-- The state of a run that started from this table with these requirements. -/
structure Completing (start : Table) (needs : List Requirement) (w : Worklist) : Prop where
  sound : w.Sound needs []
  grown : w.GrownFrom start needs 0
  replacing : w.Replacing start
  remembers : w.Remembers start
  added : ∀ earlier entry later, w.created = earlier ++ entry :: later →
    AddedAfter start needs earlier entry

/-- Columns that the map does not cover are in need of an index. -/
theorem Completing.addedAfter (h : w.Completing start needs) (hr : r ∈ needs)
    (hcov : ¬ w.coverage.isCovered r.columns = true) {entry : SynthesizedIndex}
    (hentry : entry.columns = r.columns) (hne : r.columns ≠ []) :
    AddedAfter start needs w.created entry := by
  rw [CoverageMap.isCovered_iff h.sound.tight] at hcov
  constructor
  case required => exact ⟨r, hr, hentry⟩
  case nonempty => rwa [hentry]
  case reported =>
    intro other hother hleads
    rw [hentry] at hleads
    have hkey := CoverageMap.columnKey_mem_servedKeys_of_isPrefix hne hleads
    exact hcov ⟨_, h.remembers.reported other hother _ hkey⟩
  case old =>
    intro construct hconstruct hleads
    rw [hentry] at hleads
    have hkey := CoverageMap.columnKey_mem_servedKeys_of_isPrefix hne hleads
    by_contra hspared
    exact hcov ⟨_, h.remembers.old construct hconstruct
      (fun hname hold => hspared ⟨hname, hold⟩) _ hkey⟩

/-- **Step.** -/
theorem Completing.step {rest : List Requirement} (h : w.Completing start needs)
    (hp : w.pending = r :: rest) : ({ w with pending := rest }.step r).Completing start needs := by
  obtain ⟨hr, hgrown⟩ := h.grown.take hp
  have hne : r.columns ≠ [] := h.sound.nonempty r (Or.inr (Or.inl (hp ▸ List.mem_cons_self)))
  have hremembers : Remembers start { w with pending := rest } :=
    ⟨h.remembers.reported, h.remembers.old⟩
  constructor
  case sound => exact h.sound.step hp
  case grown => exact hgrown.step hr
  case replacing => exact h.replacing.take.step r
  case remembers => exact hremembers.step h.replacing.take r
  case added =>
    by_cases hcov : w.coverage.isCovered r.columns = true
    · rw [step_of_covered (w := { w with pending := rest }) hcov]
      exact h.added
    · rw [created_step_of_uncovered (w := { w with pending := rest }) hcov]
      exact forall_split_snoc h.added (h.addedAfter hr hcov rfl hne)

theorem Completing.pairwise (h : w.Completing start needs) :
    w.created.Pairwise fun earlier later => ¬ later.columns <+: earlier.columns :=
  pairwise_of_forall_split fun _ _ _ hsplit => (h.added _ _ _ hsplit).reported

/-- No more indices are added than there are requirements, since their columns differ. -/
theorem Completing.length_created_le (h : w.Completing start needs) :
    w.created.length ≤ needs.length := by
  have hnodup : (w.created.map (·.columns)).Nodup := by
    rw [List.Nodup, List.pairwise_map]
    refine h.pairwise.imp fun hleads heq => hleads ?_
    exact heq ▸ List.prefix_rfl
  have hsub : w.created.map (·.columns) ⊆ needs.map (·.columns) := by
    intro columns hcolumns
    obtain ⟨entry, hentry, rfl⟩ := List.mem_map.1 hcolumns
    obtain ⟨earlier, later, hsplit⟩ := List.append_of_mem hentry
    obtain ⟨r, hr, heq⟩ := (h.added _ _ _ hsplit).required
    exact List.mem_map.2 ⟨r, hr, heq.symm⟩
  simpa using hnodup.length_le_of_subset hsub

/-! ## Rounds -/

/-- One round: the first pending requirement is dealt with. -/
def advance (w : Worklist) : Worklist :=
  match w.pending with
  | [] => w
  | r :: rest => { w with pending := rest }.step r

theorem advance_of_pending_nil (h : w.pending = []) : w.advance = w := by
  rw [advance, h]

theorem advance_of_pending_cons {rest : List Requirement} (h : w.pending = r :: rest) :
    w.advance = { w with pending := rest }.step r := by
  rw [advance, h]

theorem Completing.advance (h : w.Completing start needs) : w.advance.Completing start needs := by
  cases hp : w.pending with
  | nil => rwa [advance_of_pending_nil hp]
  | cons r rest =>
    rw [advance_of_pending_cons hp]
    exact h.step hp

theorem Completing.rounds (h : w.Completing start needs) (n : Nat) :
    (Worklist.advance^[n] w).Completing start needs :=
  Function.Iterate.rec (Completing start needs) h (fun _ hv => hv.advance) n

/-- A run is a number of rounds, at most as many as its measure says. -/
theorem exists_rounds_eq_run (w : Worklist) : ∃ n ≤ w.measure, Worklist.advance^[n] w = w.run := by
  induction hm : w.measure using Nat.strongRecOn generalizing w with
  | ind m ih =>
    cases hp : w.pending with
    | nil => exact ⟨0, Nat.zero_le _, (run_of_pending_nil hp).symm⟩
    | cons r rest =>
      have hlt := measure_step_lt w r rest hp
      rw [hm] at hlt
      obtain ⟨n, hn, hrun⟩ := ih _ hlt _ rfl
      refine ⟨n + 1, by omega, ?_⟩
      rw [Function.iterate_succ_apply, advance_of_pending_cons hp, hrun, run_of_pending_cons hp]

theorem pending_run (w : Worklist) : w.run.pending = [] :=
  (run_induction (P := fun _ => True) (fun _ _ _ _ h => h) trivial).2

/-- Whether a round gives this requirement an index. -/
def Serves (w : Worklist) (r : Requirement) : Prop :=
  w.pending.head? = some r ∧ ∃ entry, w.advance.created = w.created ++ [entry] ∧
    entry.columns = r.columns ∧ entry.reason = r.reason

/-- A round reports nothing, or one index for the requirement that it deals with. -/
theorem created_advance (w : Worklist) :
    w.advance.created = w.created ∨ ∃ r, w.Serves r := by
  cases hp : w.pending with
  | nil => exact Or.inl (by rw [advance_of_pending_nil hp])
  | cons r rest =>
    by_cases hcov : w.coverage.isCovered r.columns = true
    · left
      rw [advance_of_pending_cons hp, step_of_covered (w := { w with pending := rest }) hcov]
    · right
      have hcreated := created_step_of_uncovered (w := { w with pending := rest }) hcov
      rw [← advance_of_pending_cons hp] at hcreated
      exact ⟨r, by rw [hp, List.head?_cons], _, hcreated, rfl, rfl⟩

theorem not_isCovered_of_serves (h : w.Serves r) : ¬ w.coverage.isCovered r.columns = true := by
  intro hcov
  obtain ⟨hhead, entry, hcreated, -⟩ := h
  obtain ⟨rest, hp⟩ := List.head?_eq_some_iff.1 hhead
  rw [advance_of_pending_cons hp, step_of_covered (w := { w with pending := rest }) hcov]
    at hcreated
  simpa using congrArg List.length hcreated

theorem created_isPrefix_rounds (w : Worklist) (n : Nat) :
    w.created <+: (Worklist.advance^[n] w).created := by
  induction n with
  | zero => exact List.prefix_rfl
  | succ n ih =>
    rw [Function.iterate_succ_apply']
    rcases created_advance (Worklist.advance^[n] w) with heq | ⟨r, -, entry, heq, -⟩
    · rwa [heq]
    · rw [heq]
      exact ih.trans (List.prefix_append _ _)

/-- A requirement that has an index gets no second one, also when it is taken up again. -/
theorem Completing.not_serves_later (h : w.Completing start needs) (hr : w.Serves r) (n : Nat) :
    ¬ (Worklist.advance^[n + 1] w).Serves r := by
  intro hagain
  obtain ⟨hhead, entry, hcreated, hcolumns, -⟩ := hr
  have hnext := h.rounds (n + 1)
  have hentry : entry ∈ (Worklist.advance^[n + 1] w).created := by
    rw [Function.iterate_succ_apply]
    apply (created_isPrefix_rounds w.advance n).subset
    rw [hcreated]
    exact List.mem_append_right _ (List.mem_singleton_self entry)
  obtain ⟨rest, hp⟩ := List.head?_eq_some_iff.1 hagain.1
  have hne : r.columns ≠ [] :=
    hnext.sound.nonempty r (Or.inr (Or.inl (hp ▸ List.mem_cons_self)))
  have hneed := hnext.grown.requirements r (Or.inl (hp ▸ List.mem_cons_self))
  have hadded := hnext.addedAfter hneed (not_isCovered_of_serves hagain) hcolumns hne
  exact hadded.reported entry hentry List.prefix_rfl

theorem Completing.serves_unique (h : w.Completing start needs) {m n : Nat}
    (hm : (Worklist.advance^[m] w).Serves r) (hn : (Worklist.advance^[n] w).Serves r) : m = n := by
  have hnot : ∀ i j, (Worklist.advance^[i] w).Serves r → (Worklist.advance^[j] w).Serves r →
      ¬ i < j := by
    intro i j hi hj hlt
    obtain ⟨k, rfl⟩ := Nat.exists_eq_add_of_lt hlt
    rw [show i + k + 1 = (k + 1) + i by omega, Function.iterate_add_apply] at hj
    exact (h.rounds i).not_serves_later hi k hj
  have hle := hnot m n hm hn
  have hge := hnot n m hn hm
  omega

/-- Whether a round takes out one of the indices that the run started with. The reported indices
all stay, behind the others. -/
def TakesOut (start : Table) (w v : Worklist) : Prop :=
  ∃ before old after, (before ++ old :: after).Sublist start.indices ∧
    w.table.indices = before ++ old :: after ++ w.created.map (·.index) ∧
    v.table.indices = before ++ after ++ v.created.map (·.index)

theorem Replacing.takesOut_step (h : w.Replacing start)
    (hcov : ¬ w.coverage.isCovered r.columns = true) (hmem : w.indexName r ∈ w.table.indexNames) :
    TakesOut start w (w.step r) := by
  obtain ⟨found, hfound, hname⟩ := h.exists_remaining (unused_indexName h.mem_indexNames r) hmem
  obtain ⟨old, before, after, -, -, hsplit, herase⟩ := List.exists_of_eraseP
    (p := fun index : Index => index.name == w.indexName r) hfound (by simp [hname])
  refine ⟨before, old, after, ?_, ?_, ?_⟩
  · rw [← hsplit]
    exact start.remainingIndices_sublist _
  · rw [← hsplit]
    exact h.indices
  · have hnames : (w.step r).created.map (·.name) = w.created.map (·.name) ++ [w.indexName r] := by
      rw [created_step_of_uncovered hcov, List.map_append, List.map_singleton]
    rw [(h.step r).indices, hnames, Table.remainingIndices_snoc, herase]

/-- A round leaves one requirement less pending, or takes out an index that was there before. -/
theorem Completing.advance_cases {rest : List Requirement} (h : w.Completing start needs)
    (hp : w.pending = r :: rest) : w.advance.pending = rest ∨ TakesOut start w w.advance := by
  rw [advance_of_pending_cons hp]
  by_cases hcov : w.coverage.isCovered r.columns = true
  · left
    rw [step_of_covered (w := { w with pending := rest }) hcov]
  · have htaken : Replacing start { w with pending := rest } := h.replacing.take
    by_cases hmem : { w with pending := rest }.indexName r ∈ w.table.indexNames
    · exact Or.inr (htaken.takesOut_step hcov hmem)
    · left
      rw [step_of_uncovered (w := { w with pending := rest }) hcov,
        dropStale_of_not_mem (w := { w with pending := rest, ordinal := _ }) hmem]
      rfl

end Worklist

/-! ## Completing a table of a database -/

namespace Table

theorem completing_worklist (db : Database) (t : Table) :
    (db.worklist t).Completing t (db.requirements t) where
  sound := sound_worklist db t
  grown := ⟨id, fun _ hindex => Or.inl hindex, Nat.le_refl _, fun r hr =>
    hr.resolve_right (by rintro ⟨⟩)⟩
  replacing := replacing_worklist db t
  remembers := by
    constructor
    case reported => exact fun _ hentry => absurd hentry List.not_mem_nil
    case old =>
      exact fun construct hconstruct _ key hkey =>
        CoverageMap.lists_ofTable.2 ⟨construct, hconstruct, rfl, hkey⟩
  added earlier entry later hsplit :=
    absurd hsplit.symm (List.append_ne_nil_of_right_ne_nil earlier (List.cons_ne_nil entry later))

/-- **Run.** -/
theorem completing_run (db : Database) (t : Table) :
    (db.worklist t).run.Completing t (db.requirements t) :=
  (Worklist.run_induction (P := Worklist.Completing t (db.requirements t))
    (fun _ _ _ hp h => h.step hp) (completing_worklist db t)).1

end Table

namespace Database

variable {db db' : Database} {id : TableId} {t : Table} {created : List SynthesizedIndex}

/-- The state of completing a table after so many rounds. -/
def rounds (db : Database) (t : Table) (n : Nat) : Worklist := Worklist.advance^[n] (db.worklist t)

theorem rounds_succ (db : Database) (t : Table) (n : Nat) :
    db.rounds t (n + 1) = (db.rounds t n).advance :=
  Function.iterate_succ_apply' ..

/-- At most as many rounds are needed as every old index can make all requirements pending again. -/
theorem measure_worklist_le (db : Database) (t : Table) : (db.worklist t).measure ≤
    t.indices.length * ((db.requirements t).length + 1) + (db.requirements t).length := by
  have hstale : (db.worklist t).staleCount ≤ t.indices.length := List.countP_le_length
  exact Nat.add_le_add_right (Nat.mul_le_mul_right _ hstale) _

/-- **The rounds of completing a table.** They end. A round leaves one requirement less pending, or
takes out one of the indices that the table started with; it reports nothing, or an index for the
requirement that it deals with, and no requirement gets two. So there are at most as many reported
indices as requirements, and none of them leads one reported before it. -/
theorem synthesizeIndices_rounds (ht : db.table? id = some t)
    (h : db.synthesizeIndices id = (db', created)) :
    (∃ n ≤ t.indices.length * ((db.requirements t).length + 1) + (db.requirements t).length,
      (db.rounds t n).pending = [] ∧ created = (db.rounds t n).created ∧
      db' = db.modifyTable id fun _ => (db.rounds t n).table) ∧
    (∀ n r rest, (db.rounds t n).pending = r :: rest → (db.rounds t (n + 1)).pending = rest ∨
      Worklist.TakesOut t (db.rounds t n) (db.rounds t (n + 1))) ∧
    (∀ n, (db.rounds t (n + 1)).created = (db.rounds t n).created ∨
      ∃ r ∈ db.requirements t, (db.rounds t n).Serves r) ∧
    (∀ r m n, (db.rounds t m).Serves r → (db.rounds t n).Serves r → m = n) ∧
    created.length ≤ (db.requirements t).length ∧
    created.Pairwise fun earlier later => ¬ later.columns <+: earlier.columns := by
  have hstart := t.completing_worklist db
  have hrun := t.completing_run db
  rw [synthesizeIndices_of_table? ht, Prod.mk.injEq] at h
  obtain ⟨rfl, rfl⟩ := h
  refine ⟨?_, ?_, ?_, fun r m n => hstart.serves_unique, hrun.length_created_le, hrun.pairwise⟩
  · obtain ⟨n, hn, heq⟩ := Worklist.exists_rounds_eq_run (db.worklist t)
    refine ⟨n, Nat.le_trans hn (db.measure_worklist_le t), ?_⟩
    rw [rounds, heq]
    exact ⟨Worklist.pending_run _, rfl, rfl⟩
  · intro n r rest hp
    rw [rounds_succ]
    exact (hstart.rounds n).advance_cases hp
  · intro n
    rw [rounds_succ]
    rcases (db.rounds t n).created_advance with hsame | ⟨r, hr⟩
    · exact Or.inl hsame
    · obtain ⟨rest, hp⟩ := List.head?_eq_some_iff.1 hr.1
      have hneed := (hstart.rounds n).grown.requirements r (Or.inl (hp ▸ List.mem_cons_self))
      exact Or.inr ⟨r, hneed, hr⟩

/-- An author with an older index under the name that the books' key generates. -/
def reviewedAuthor : Table where
  name := "author"
  columns := (Columns.empty.push
    { name := "name", columnType := .varchar } (Columns.not_contains_empty "name")).push
    { name := "email", columnType := .varchar } (by decide +kernel)
  indices := [{ name := "I_referenced_book_FK_1_1",
                columns := [{ name := "name" }, { name := "email" }] }]
  referrers := [⟨⟨1⟩, 0⟩, ⟨⟨2⟩, 0⟩]

/-- Reviews refer to the author's name, which the older index covers, and books to the address. -/
def reviews : Database where
  name := "reviews"
  platform := .mysql
  tables :=
    [reviewedAuthor,
     { name := "review"
       foreignKeys :=
         [{ name := "review_FK_1", foreignTable := "author", references := [⟨"author", "name"⟩] }] },
     { name := "book"
       foreignKeys :=
         [{ name := "book_FK_1", foreignTable := "author", references := [⟨"email", "email"⟩] }] }]

/-- The second round takes the older index out, and the reviews' requirement is pending again. -/
theorem synthesizeIndices_rounds_reviews :
    reviews.table? ⟨0⟩ = some reviewedAuthor ∧
    (reviews.rounds reviewedAuthor 1).pending.map (·.foreignKey) = ["book_FK_1"] ∧
    (reviews.rounds reviewedAuthor 2).pending.map (·.foreignKey) = ["review_FK_1"] ∧
    Worklist.TakesOut reviewedAuthor (reviews.rounds reviewedAuthor 1)
      (reviews.rounds reviewedAuthor 2) ∧
    ∃ db' created, reviews.synthesizeIndices ⟨0⟩ = (db', created) ∧
      created.map (·.name) = ["I_referenced_book_FK_1_1", "I_referenced_review_FK_1_2"] ∧
      (∃ n ≤ 5, (reviews.rounds reviewedAuthor n).pending = [] ∧
        created = (reviews.rounds reviewedAuthor n).created) ∧
      created.Pairwise fun earlier later => ¬ later.columns <+: earlier.columns := by
  have ht : reviews.table? ⟨0⟩ = some reviewedAuthor := rfl
  have h : reviews.synthesizeIndices ⟨0⟩ =
      ((reviews.synthesizeIndices ⟨0⟩).1, (reviews.synthesizeIndices ⟨0⟩).2) := rfl
  obtain ⟨⟨n, hn, hend, hcreated, -⟩, hround, -, -, -, hpairwise⟩ := synthesizeIndices_rounds ht h
  have hpending : (reviews.rounds reviewedAuthor 1).pending =
      [⟨"book_FK_1", ["email"], .referenced⟩] := by decide +kernel
  have hsecond : (reviews.rounds reviewedAuthor 2).pending ≠ [] := by decide +kernel
  refine ⟨ht, by decide +kernel, by decide +kernel, (hround 1 _ _ hpending).resolve_left hsecond,
    _, _, h, by decide +kernel, ⟨n, hn, hend, hcreated⟩, hpairwise⟩

end Database

end RelSchema
