import RelSchema.Proofs.Incremental

/-!
# Unknown behaviors

A tolerant resolve can fail in one way only: a table declares a behavior that is not built in. Then
the first phase stops at the first such behavior of the first such table
(`Resolver.finalize_of_unknown`). The tables before are finalized, the table itself has the columns
that its behaviors up to there gave to it, and what comes after is not visited, nor is the second
phase begun. The built-in behavior looks for a column before it adds one, so it is never refused.
-/

namespace RelSchema

/-- If not all elements of a list have a property, there is a first one without it. -/
theorem exists_first_without {α : Type} {p : α → Prop} [DecidablePred p] {l : List α}
    (h : ∃ a ∈ l, ¬ p a) : ∃ before a after, l = before ++ a :: after ∧
      (∀ b ∈ before, p b) ∧ ¬ p a := by
  obtain ⟨a, ha, hnot⟩ := h
  cases hfirst : l.find? (fun b => !decide (p b)) with
  | none => simpa [hnot] using List.find?_eq_none.1 hfirst a ha
  | some first =>
    obtain ⟨hp, before, after, hsplit, hbefore⟩ := List.find?_eq_some_iff_append.1 hfirst
    exact ⟨before, first, after, hsplit, fun b hb => by simpa using hbefore b hb, by simpa using hp⟩

/-! ## The behaviors of a table -/

namespace BehaviorRegistry

variable {t : Table} {declaration : BehaviorDeclaration} {applied rest : List BehaviorDeclaration}

theorem applyOne_of_unknown (h : declaration.name ≠ "timestampable") (t : Table) :
    builtIn.applyOne t declaration =
      { state := t, error := some (.unknownBehavior t.name declaration.name) } := by
  unfold applyOne
  split
  · rfl
  · rename_i behavior hcreate
    exact absurd (create?_builtIn hcreate).1 h

/-- Behaviors are applied up to the first unknown one, which changes nothing. -/
theorem apply_of_unknown (hbehaviors : t.behaviors = applied ++ declaration :: rest)
    (hknown : ∀ d ∈ applied, d.name = "timestampable")
    (hunknown : declaration.name ≠ "timestampable") :
    builtIn.apply t =
      { state := (Walk.along builtIn.applyOne t applied).state,
        error := some (.unknownBehavior t.name declaration.name) } := by
  obtain ⟨columns, hwalk, -⟩ := along_applyOne (t := t) hknown
  have hrefused := applyOne_of_unknown hunknown (t.withColumns columns)
  rw [apply, hbehaviors, Walk.along_of_refused (by rw [hwalk]) (by rw [hwalk, hrefused]), hwalk]
  exact hrefused

end BehaviorRegistry

/-- A table whose behaviors are refused gets no further. -/
theorem Table.finalize_of_refused {t t' : Table} {registry : BehaviorRegistry} {e : SchemaError}
    (h : registry.apply t = { state := t', error := some e }) (strategy : NameStrategy)
    (maxLength : Nat) : t.finalize registry strategy maxLength = (t', .error e) := by
  unfold finalize
  rw [h]

/-! ## The table at which finalizing stops -/

namespace Database

variable {db db' : Database} {before after : List Table} {t : Table}

/-- The handles of the tables up to one of them. -/
theorem tableIds_split (h : db.tables = before ++ t :: after) : ∃ rest,
    db.tableIds = (List.range before.length).map TableId.mk ++ ⟨before.length⟩ :: rest := by
  refine ⟨((List.range after.length).map (before.length + 1 + ·)).map TableId.mk, ?_⟩
  rw [tableIds, h, List.length_append, List.length_cons, Nat.add_comm after.length 1,
    ← Nat.add_assoc, List.range_add, List.range_succ]
  simp

/-- Where the tables before one of them are changed, and then this one. -/
theorem tables_mapSome_modifyTable (h : db.tables = before ++ t :: after) (f g : Table → Table) :
    ((db.mapSome ((List.range before.length).map TableId.mk) f).modifyTable
      ⟨before.length⟩ g).tables = before.map f ++ g t :: after := by
  have hmem : ∀ place, (⟨place⟩ : TableId) ∈ (List.range before.length).map TableId.mk ↔
      place < before.length := by
    intro place
    simp
  rw [modifyTable, mapSome, mapTables, h]
  simp only [hmem]
  apply List.ext_getElem?
  intro place
  rw [List.getElem?_modify, List.getElem?_mapIdx]
  rcases Nat.lt_trichotomy place before.length with hlt | rfl | hgt
  · have hne : before.length ≠ place := Nat.ne_of_gt hlt
    rw [List.getElem?_append_left hlt, List.getElem?_append_left (by simpa using hlt),
      List.getElem?_map]
    simp [hlt, hne]
  · simp
  · have hne : before.length ≠ place := Nat.ne_of_lt hgt
    have hnot : ¬ place < before.length := Nat.lt_asymm hgt
    have hlater : ∀ l : List Table, ∀ u, l.length = before.length →
        (l ++ u :: after)[place]? = after[place - before.length - 1]? := by
      intro l u hl
      rw [List.getElem?_append_right (hl ▸ Nat.le_of_lt hgt), hl, List.getElem?_cons,
        if_neg (by omega)]
    rw [hlater before t rfl, hlater (before.map f) (g t) (List.length_map _)]
    simp [hne, hnot]

/-- Whether `db'` is `db` with the first phase stopped at the behavior `declaration` of `t`: of all
tables, in their order, this is the first one with an unknown behavior, and this is its first. -/
structure StoppedAt (db : Database) (before : List Table) (t : Table) (after : List Table)
    (declaration : BehaviorDeclaration) (db' : Database) : Prop where
  tables : db.tables = before ++ t :: after
  known : ∀ u ∈ before, BehaviorRegistry.Known u
  unknown : declaration.name ≠ "timestampable"
  /-- Of the table the behaviors before this one are applied. -/
  stopped : ∃ applied rest, t.behaviors = applied ++ declaration :: rest ∧
    (∀ d ∈ applied, d.name = "timestampable") ∧
    db' = { db with
      tables := before.map (Table.finalized db.platform.maxIdentifierLength) ++
        (Walk.along BehaviorRegistry.builtIn.applyOne t applied).state :: after }

/-- Up to there no edge is added. -/
theorem StoppedAt.revises {declaration : BehaviorDeclaration}
    (h : db.StoppedAt before t after declaration db') :
    List.Forall₂ Table.Revises db.tables db'.tables := by
  obtain ⟨applied, rest, -, -, rfl⟩ := h.stopped
  have hself : ∀ l : List Table, List.Forall₂ Table.Revises l l :=
    fun l => List.forall₂_same.2 fun u _ => .refl u
  have hfinalized : List.Forall₂ Table.Revises before
      (before.map (Table.finalized db.platform.maxIdentifierLength)) := by
    rw [List.forall₂_map_right_iff, List.forall₂_same]
    exact fun u _ => u.revises_finalize BehaviorRegistry.revising_builtIn .standard _
  have happlied : t.Revises (Walk.along BehaviorRegistry.builtIn.applyOne t applied).state :=
    Walk.along_invariant (P := t.Revises)
      (fun u d _ hu => hu.trans (BehaviorRegistry.revising_builtIn u d)) (.refl t)
  rw [h.tables]
  exact List.rel_append hfinalized (.cons happlied (hself after))

end Database

namespace Resolver

variable {r : Resolver} {s : Resolution} {id : TableId} {t t' : Table} {e : SchemaError}

theorem finalizeTable_of_refused (ht : s.db.table? id = some t)
    (h : r.finalizeAlone s.db.platform t = (t', .error e)) : r.finalizeTable s id =
      { state := { s with db := s.db.modifyTable id fun _ => t' }, error := some e } := by
  rw [finalizeAlone] at h
  rw [finalizeTable, ht]
  dsimp only
  rw [h]

/-- A first phase that is refused ends the resolve, and leaves what it has changed. -/
theorem resolve_of_refused {timestamp : String} {db : Database}
    (h : (r.finalize ⟨db, { timestamp }⟩).error = some e) :
    r.resolve timestamp db = ((r.finalize ⟨db, { timestamp }⟩).state.db, .error e) := by
  rw [resolve, Walk.andThen, h]
  dsimp only
  rw [h]

/-- The tables before are finalized when their behaviors are known. -/
theorem along_finalizeTable_before {before after : List Table}
    (htables : s.db.tables = before ++ t :: after)
    (hbefore : ∀ u ∈ before, BehaviorRegistry.Known u) :
    (Walk.along (standard .tolerant).finalizeTable s
        ((List.range before.length).map TableId.mk)).error = none ∧
      (Walk.along (standard .tolerant).finalizeTable s
          ((List.range before.length).map TableId.mk)).state.db =
        s.db.mapSome ((List.range before.length).map TableId.mk)
          (Table.finalized s.db.platform.maxIdentifierLength) := by
  obtain ⟨rest, hids⟩ := Database.tableIds_split htables
  have hnodup := s.db.nodup_tableIds
  rw [hids] at hnodup
  obtain ⟨herror, hstate⟩ := along_finalizeTable (r := standard .tolerant)
    (List.nodup_append.1 hnodup).1 s
  have hok := herror.2 fun id hid u hu => by
    obtain ⟨place, hplace, rfl⟩ := List.mem_map.1 hid
    rw [Database.table?, htables, List.getElem?_append_left (List.mem_range.1 hplace)] at hu
    exact Table.finalize_eq_ok_iff.2 (hbefore u (List.mem_of_getElem? hu))
  exact ⟨hok, hstate hok⟩

/-- **Where finalizing stops**: at the first unknown behavior of the first table that has one. -/
theorem finalize_of_unknown {before after : List Table} {declaration : BehaviorDeclaration}
    {applied rest : List BehaviorDeclaration} (htables : s.db.tables = before ++ t :: after)
    (hbefore : ∀ u ∈ before, BehaviorRegistry.Known u)
    (hbehaviors : t.behaviors = applied ++ declaration :: rest)
    (happlied : ∀ d ∈ applied, d.name = "timestampable")
    (hunknown : declaration.name ≠ "timestampable") :
    ((standard .tolerant).finalize s).error =
        some (.unknownBehavior t.name declaration.name) ∧
      s.db.StoppedAt before t after declaration ((standard .tolerant).finalize s).state.db := by
  have happly := BehaviorRegistry.apply_of_unknown hbehaviors happlied hunknown
  obtain ⟨hok, hdb⟩ := along_finalizeTable_before htables hbefore
  obtain ⟨later, hids⟩ := Database.tableIds_split htables
  -- the visits before have left the table as it was
  have ht : (s.db.mapSome ((List.range before.length).map TableId.mk)
      (Table.finalized s.db.platform.maxIdentifierLength)).table? ⟨before.length⟩ = some t := by
    rw [Database.mapSome, Database.table?_mapTables, Database.table?, htables]
    simp
  have halone : ∀ platform, (standard .tolerant).finalizeAlone platform t =
      ((Walk.along BehaviorRegistry.builtIn.applyOne t applied).state,
        .error (.unknownBehavior t.name declaration.name)) :=
    fun _ => Table.finalize_of_refused happly .standard _
  rw [← hdb] at ht
  have hvisit := finalizeTable_of_refused (r := standard .tolerant) ht (halone _)
  rw [finalize, hids, Walk.along_of_refused hok (by rw [hvisit]), hvisit]
  refine ⟨rfl, htables, hbefore, hunknown, applied, rest, hbehaviors, happlied, ?_⟩
  rw [← Database.tables_mapSome_modifyTable htables _ fun _ =>
    (Walk.along BehaviorRegistry.builtIn.applyOne t applied).state]
  dsimp only
  rw [hdb]
  rfl

/-- **What a tolerant resolve can fail on.** It fails exactly if some table declares a behavior that
is not built in, and the error names the first such table with its first such behavior. Then the
tables before are finalized, the ones behind are as they were, and no edge is added. The built-in
behavior fails on no table, with any parameters and any number of times; the columns that it names
are there afterwards. -/
theorem resolve_tolerant (timestamp : String) (db : Database) :
    ((∃ e, ((standard .tolerant).resolve timestamp db).2 = .error e) ↔
      ∃ t ∈ db.tables, ∃ d ∈ t.behaviors, d.name ≠ "timestampable") ∧
    (∀ e, ((standard .tolerant).resolve timestamp db).2 = .error e →
      ∃ before t after declaration, e = .unknownBehavior t.name declaration.name ∧
        db.StoppedAt before t after declaration
          ((standard .tolerant).resolve timestamp db).1 ∧
        (∀ u ∈ before, ∃ outcome,
          u.finalize .builtIn .standard db.platform.maxIdentifierLength =
            (u.finalized db.platform.maxIdentifierLength, .ok outcome)) ∧
        List.Forall₂ Table.Revises db.tables
          ((standard .tolerant).resolve timestamp db).1.tables) ∧
    ∀ (t : Table) (declarations : List BehaviorDeclaration),
      (∀ d ∈ declarations, d.name = "timestampable") → ∃ columns,
        Walk.along BehaviorRegistry.builtIn.applyOne t declarations =
          { state := t.withColumns columns } ∧
        ∀ d ∈ declarations, BehaviorRegistry.Applied (t.withColumns columns) d := by
  refine and_assoc.1 ⟨?_, fun t declarations hnames => ?_⟩
  swap
  · obtain ⟨columns, hwalk, -, happlied⟩ := BehaviorRegistry.along_applyOne hnames
    exact ⟨columns, hwalk, happlied⟩
  by_cases hknown : ∀ t ∈ db.tables, BehaviorRegistry.Known t
  · obtain ⟨report, hok⟩ := Database.resolve_of_known timestamp hknown
    rw [hok]
    refine ⟨iff_of_false ?_ ?_, fun e he => nomatch he⟩
    · rintro ⟨e, he⟩
      cases he
    · rintro ⟨t, ht, d, hd, hname⟩
      exact hname (hknown t ht d hd)
  · -- the first table with an unknown behavior, and its first one
    simp only [not_forall, exists_prop] at hknown
    obtain ⟨before, t, after, htables, hbefore, hnot⟩ := exists_first_without hknown
    simp only [BehaviorRegistry.Known, not_forall, exists_prop] at hnot
    obtain ⟨applied, declaration, rest, hbehaviors, happlied, hunknown⟩ :=
      exists_first_without hnot
    obtain ⟨herror, hstopped⟩ := finalize_of_unknown (s := ⟨db, { timestamp }⟩) htables hbefore
      hbehaviors happlied hunknown
    rw [resolve_of_refused herror]
    refine ⟨iff_of_true ⟨_, rfl⟩ ⟨t, ?_, declaration, ?_, hunknown⟩, ?_⟩
    · exact htables ▸ List.mem_append_right _ List.mem_cons_self
    · exact hbehaviors ▸ List.mem_append_right _ List.mem_cons_self
    · intro e he
      cases he
      refine ⟨before, t, after, declaration, rfl, hstopped, fun u hu => ?_, hstopped.revises⟩
      obtain ⟨outcome, houtcome⟩ := Table.finalize_eq_ok_iff.2 (hbefore u hu)
      exact ⟨outcome, Prod.ext rfl houtcome⟩

end Resolver

end RelSchema
