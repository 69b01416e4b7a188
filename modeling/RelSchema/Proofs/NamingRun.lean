import Mathlib.Order.Bounds.Basic
import RelSchema.Proofs.ConstraintNaming

/-!
# The naming pass step by step

The pass visits the places of the constraints in order: foreign keys, indices, unique constraints. A
run of it is told here on the table alone. A constraint with a name is passed over; one without gets
the standard name with the least number from its place on that no constraint of the table carries at
that moment. What the pass returns is what such a run does (`Table.namingRun_nameConstraints`), and
every property of its result is read off the run.
-/

namespace RelSchema

/-! ## Places of constraints -/

/-- Where a constraint stands: in which collection of its table, and at which place in it. -/
structure ConstraintPlace where
  kind : ConstraintKind
  position : Nat
deriving DecidableEq, Repr

namespace ConstraintPlace

/-- The places of a collection of this many constraints, from this position on. -/
def listed (kind : ConstraintKind) (start count : Nat) : List ConstraintPlace :=
  (List.range' start count).map (⟨kind, ·⟩)

theorem nodup_listed (kind : ConstraintKind) (start count : Nat) : (listed kind start count).Nodup :=
  (List.nodup_range' (h := by decide)).map fun _ _ h => congrArg position h

theorem listed_succ (kind : ConstraintKind) (start count : Nat) :
    listed kind start (count + 1) = ⟨kind, start⟩ :: listed kind (start + 1) count := by
  rw [listed, List.range'_succ]
  rfl

theorem mem_listed_iff {kind : ConstraintKind} {start count : Nat} {p : ConstraintPlace} :
    p ∈ listed kind start count ↔
      p.kind = kind ∧ start ≤ p.position ∧ p.position < start + count := by
  rw [listed, List.mem_map]
  constructor
  · rintro ⟨position, hposition, rfl⟩
    exact ⟨rfl, List.mem_range'_1.1 hposition⟩
  · rintro ⟨rfl, hposition⟩
    exact ⟨p.position, List.mem_range'_1.2 hposition, rfl⟩

end ConstraintPlace

/-! ## Renaming in a list -/

section Renaming

variable {α : Type} [Named α]

theorem map_name_modify (hrename : ∀ (a : α) (name : String), Named.name (Named.rename a name) = name)
    (l : List α) (position place : Nat) (name : String) :
    (l.modify position (Named.rename · name))[place]?.map Named.name =
      if place = position then (l[place]?.map Named.name).map fun _ => name
      else l[place]?.map Named.name := by
  rw [List.getElem?_modify]
  by_cases h : place = position
  · subst h
    cases l[place]? <;> simp [hrename]
  · cases l[place]? <;> simp [h, Ne.symm h]

omit [Named α] in
theorem map_modify_of_eq {β : Type} {f : α → β} {g : α → α} (h : ∀ a, f (g a) = f a) (l : List α)
    (position : Nat) : (l.modify position g).map f = l.map f := by
  apply List.ext_getElem?
  intro place
  rw [List.getElem?_map, List.getElem?_map, List.getElem?_modify]
  split
  · cases l[place]? with
    | none => rfl
    | some a => exact congrArg some (h a)
  · cases l[place]? <;> rfl

theorem mem_givenNames_iff {l : List α} {name : String} :
    name ∈ givenNames l ↔ name ≠ "" ∧ ∃ position : Nat, l[position]?.map Named.name = some name := by
  rw [givenNames, List.mem_filter, List.mem_iff_getElem?, and_comm]
  simp only [List.getElem?_map, Bool.not_eq_true', String.isEmpty_eq_false_iff]

end Renaming

namespace Table

/-- The name of the constraint at a place; it is empty when the constraint has none. -/
def nameAt? (t : Table) (p : ConstraintPlace) : Option String :=
  match p.kind with
  | .foreignKey => t.foreignKeys[p.position]?.map (·.name)
  | .index => t.indices[p.position]?.map (·.name)
  | .unique => t.uniques[p.position]?.map (·.name)

/-- Gives a name to the constraint at a place. -/
def renameAt (t : Table) (p : ConstraintPlace) (name : String) : Table :=
  match p.kind with
  | .foreignKey => { t with foreignKeys := t.foreignKeys.modify p.position (Named.rename · name) }
  | .index => { t with indices := t.indices.modify p.position (Named.rename · name) }
  | .unique => { t with uniques := t.uniques.modify p.position (Named.rename · name) }

/-- All places of a table, in the order in which they are visited. -/
def constraintPlaces (t : Table) : List ConstraintPlace :=
  ConstraintPlace.listed .foreignKey 0 t.foreignKeys.length ++
    ConstraintPlace.listed .index 0 t.indices.length ++
    ConstraintPlace.listed .unique 0 t.uniques.length

/-- Whether some constraint of the table, of any kind, has this name. -/
def Carries (t : Table) (name : String) : Prop := ∃ p, t.nameAt? p = some name

/-- The table with the names of its constraints taken away: all that the pass has to leave alone. -/
def nameless (t : Table) : Table :=
  { t with
    foreignKeys := t.foreignKeys.map (Named.rename · "")
    indices := t.indices.map (Named.rename · "")
    uniques := t.uniques.map (Named.rename · "") }

section Places

variable {t : Table} {p q : ConstraintPlace} {name : String}

theorem nameAt?_renameAt (t : Table) (p q : ConstraintPlace) (name : String) :
    (t.renameAt p name).nameAt? q =
      if q = p then (t.nameAt? q).map fun _ => name else t.nameAt? q := by
  obtain ⟨kind, position⟩ := p
  obtain ⟨kind', position'⟩ := q
  simp only [ConstraintPlace.mk.injEq]
  -- at another collection nothing is renamed, at the same one it depends on the position
  by_cases hkind : kind' = kind
  · subst hkind
    simp only [true_and]
    cases kind' <;> exact map_name_modify (fun _ _ => rfl) _ position position' name
  · rw [if_neg fun h => hkind h.1]
    cases kind <;> cases kind' <;> first | rfl | exact absurd rfl hkind

theorem nameAt?_renameAt_of_ne (h : q ≠ p) : (t.renameAt p name).nameAt? q = t.nameAt? q := by
  rw [nameAt?_renameAt, if_neg h]

theorem nameAt?_renameAt_self {old : String} (h : t.nameAt? p = some old) :
    (t.renameAt p name).nameAt? p = some name := by
  rw [nameAt?_renameAt, if_pos rfl, h]
  rfl

theorem nameless_renameAt (t : Table) (p : ConstraintPlace) (name : String) :
    (t.renameAt p name).nameless = t.nameless := by
  unfold renameAt nameless
  split <;>
    · dsimp only
      rw [map_modify_of_eq]
      exact fun _ => rfl

theorem mem_constraintNames_iff : name ∈ t.constraintNames ↔ name ≠ "" ∧ t.Carries name := by
  rw [constraintNames_eq_givenNames, List.mem_append, List.mem_append, mem_givenNames_iff,
    mem_givenNames_iff, mem_givenNames_iff]
  constructor
  · rintro ((⟨hne, position, h⟩ | ⟨hne, position, h⟩) | ⟨hne, position, h⟩)
    · exact ⟨hne, ⟨.foreignKey, position⟩, h⟩
    · exact ⟨hne, ⟨.index, position⟩, h⟩
    · exact ⟨hne, ⟨.unique, position⟩, h⟩
  · rintro ⟨hne, ⟨kind, position⟩, h⟩
    cases kind with
    | foreignKey => exact Or.inl (Or.inl ⟨hne, position, h⟩)
    | index => exact Or.inl (Or.inr ⟨hne, position, h⟩)
    | unique => exact Or.inr ⟨hne, position, h⟩

/-- Giving a name to an unnamed constraint adds it to the names that are carried. -/
theorem carries_renameAt_iff {other : String} (h : t.nameAt? p = some "") (hother : other ≠ "") :
    (t.renameAt p name).Carries other ↔ other = name ∨ t.Carries other := by
  constructor
  · rintro ⟨q, hq⟩
    by_cases hqp : q = p
    · subst hqp
      rw [nameAt?_renameAt_self h] at hq
      exact Or.inl (Option.some.inj hq).symm
    · rw [nameAt?_renameAt_of_ne hqp] at hq
      exact Or.inr ⟨q, hq⟩
  · rintro (rfl | ⟨q, hq⟩)
    · exact ⟨p, nameAt?_renameAt_self h⟩
    · refine ⟨q, ?_⟩
      rwa [nameAt?_renameAt_of_ne]
      rintro rfl
      exact hother (Option.some.inj (hq.symm.trans h))

theorem mem_constraintNames_renameAt_iff {other : String} (h : t.nameAt? p = some "")
    (hname : name ≠ "") :
    other ∈ (t.renameAt p name).constraintNames ↔ other = name ∨ other ∈ t.constraintNames := by
  rw [mem_constraintNames_iff, mem_constraintNames_iff]
  by_cases hother : other = ""
  · subst hother
    simp [hname.symm]
  · rw [carries_renameAt_iff h hother]
    simp [hother]

theorem mem_constraintPlaces (h : t.nameAt? p = some name) : p ∈ t.constraintPlaces := by
  obtain ⟨kind, position⟩ := p
  have hlt : ∀ {α : Type} {f : α → String} {l : List α}, l[position]?.map f = some name →
      position < l.length := by
    intro α f l hl
    obtain ⟨a, ha, -⟩ := Option.map_eq_some_iff.1 hl
    exact (List.getElem?_eq_some_iff.1 ha).1
  simp only [constraintPlaces, List.mem_append, ConstraintPlace.mem_listed_iff, Nat.zero_le,
    Nat.zero_add, true_and]
  cases kind with
  | foreignKey => exact Or.inl (Or.inl ⟨rfl, hlt h⟩)
  | index => exact Or.inl (Or.inr ⟨rfl, hlt h⟩)
  | unique => exact Or.inr ⟨rfl, hlt h⟩

theorem nodup_constraintPlaces (t : Table) : t.constraintPlaces.Nodup := by
  have hapart : ∀ {kind kind' : ConstraintKind} {count count' : Nat}, kind ≠ kind' →
      (ConstraintPlace.listed kind 0 count).Disjoint (ConstraintPlace.listed kind' 0 count') := by
    intro kind kind' count count' hne q hq hq'
    exact hne ((ConstraintPlace.mem_listed_iff.1 hq).1.symm.trans
      (ConstraintPlace.mem_listed_iff.1 hq').1)
  refine ((ConstraintPlace.nodup_listed _ _ _).append (ConstraintPlace.nodup_listed _ _ _)
    (hapart (by decide))).append (ConstraintPlace.nodup_listed _ _ _) ?_
  rw [List.disjoint_append_left]
  exact ⟨hapart (by decide), hapart (by decide)⟩

end Places

end Table

/-! ## Runs -/

/-- The place of the constraint that a name was given to. -/
def AssignedName.place (a : AssignedName) : ConstraintPlace := ⟨a.kind, a.position⟩

/-- The standard name with this number for the constraint at a place. -/
def Table.standardNameFor (t : Table) (maxLength : Nat) (p : ConstraintPlace) (number : Nat) :
    String :=
  NameStrategy.standardName ⟨t.name, p.kind, number, maxLength⟩

theorem Table.standardNameFor_ne_empty (t : Table) (maxLength : Nat) (p : ConstraintPlace)
    (number : Nat) : t.standardNameFor maxLength p number ≠ "" := Table.standardName_ne_empty _

/-- A run over some places of a table, with the table it ends in and the names it gives. A constraint
without a name gets the standard name with the least number beyond its position that no constraint of
the table carries at that moment. -/
inductive NamingRun (maxLength : Nat) :
    Table → List ConstraintPlace → Table → List AssignedName → Prop where
  | done (t : Table) : NamingRun maxLength t [] t []
  | keep {t u : Table} {p : ConstraintPlace} {places : List ConstraintPlace}
      {assigned : List AssignedName} : t.nameAt? p ≠ some "" →
      NamingRun maxLength t places u assigned → NamingRun maxLength t (p :: places) u assigned
  | assign {t u : Table} {p : ConstraintPlace} {places : List ConstraintPlace}
      {assigned : List AssignedName} {number : Nat} : t.nameAt? p = some "" →
      IsLeast {n | p.position + 1 ≤ n ∧
        ¬ t.Carries (t.standardNameFor maxLength p n)} number →
      NamingRun maxLength (t.renameAt p (t.standardNameFor maxLength p number)) places u assigned →
      NamingRun maxLength t (p :: places) u
        (⟨p.kind, p.position, t.standardNameFor maxLength p number⟩ :: assigned)

namespace NamingRun

variable {maxLength : Nat} {t u : Table} {places : List ConstraintPlace}
  {assigned : List AssignedName} {p : ConstraintPlace} {name : String}

theorem append {v : Table} {places' : List ConstraintPlace} {assigned' : List AssignedName}
    (h : NamingRun maxLength t places u assigned)
    (h' : NamingRun maxLength u places' v assigned') :
    NamingRun maxLength t (places ++ places') v (assigned ++ assigned') := by
  induction h with
  | done => exact h'
  | keep hnamed _ ih => exact .keep hnamed (ih h')
  | assign hunnamed hleast _ ih => exact .assign hunnamed hleast (ih h')

/-- Nothing but names changes. -/
theorem nameless_eq (h : NamingRun maxLength t places u assigned) : u.nameless = t.nameless := by
  induction h with
  | done => rfl
  | keep _ _ ih => exact ih
  | assign _ _ _ ih => exact ih.trans (Table.nameless_renameAt ..)

/-- Names change only where a visited constraint had none. -/
theorem nameAt?_eq (h : NamingRun maxLength t places u assigned)
    (hp : p ∉ places ∨ t.nameAt? p ≠ some "") : u.nameAt? p = t.nameAt? p := by
  induction h with
  | done => rfl
  | keep _ _ ih => exact ih (hp.imp_left fun hnot hmem => hnot (List.mem_cons_of_mem _ hmem))
  | @assign t u q places assigned number hunnamed _ _ ih =>
    have hne : p ≠ q := by
      rintro rfl
      exact hp.elim (fun hnot => hnot List.mem_cons_self) fun hnamed => hnamed hunnamed
    rw [ih, Table.nameAt?_renameAt_of_ne hne]
    rw [Table.nameAt?_renameAt_of_ne hne]
    exact hp.imp_left fun hnot hmem => hnot (List.mem_cons_of_mem _ hmem)

/-- The constraint that was just given a name keeps it to the end of the run. -/
theorem nameAt?_of_assign {number : Nat} (hunnamed : t.nameAt? p = some "")
    (h : NamingRun maxLength (t.renameAt p (t.standardNameFor maxLength p number)) places u
      assigned) : u.nameAt? p = some (t.standardNameFor maxLength p number) := by
  have hrenamed : (t.renameAt p (t.standardNameFor maxLength p number)).nameAt? p =
      some (t.standardNameFor maxLength p number) := Table.nameAt?_renameAt_self hunnamed
  rw [h.nameAt?_eq, hrenamed]
  right
  rw [hrenamed]
  exact fun hempty => Table.standardNameFor_ne_empty _ _ _ _ (Option.some.inj hempty)

/-- No visited constraint stays without a name. -/
theorem nameAt?_ne_empty (h : NamingRun maxLength t places u assigned) (hp : p ∈ places) :
    u.nameAt? p ≠ some "" := by
  induction h with
  | done => cases hp
  | keep hnamed hrun ih =>
    rcases List.mem_cons.1 hp with rfl | hp
    · rwa [hrun.nameAt?_eq (Or.inr hnamed)]
    · exact ih hp
  | assign hunnamed _ hrun ih =>
    rcases List.mem_cons.1 hp with rfl | hp
    · rw [nameAt?_of_assign hunnamed hrun]
      exact fun hempty => Table.standardNameFor_ne_empty _ _ _ _ (Option.some.inj hempty)
    · exact ih hp

/-- A name that some constraint carries already is given to no other. -/
theorem nameAt?_of_carries (h : NamingRun maxLength t places u assigned) (hname : name ≠ "")
    (hcarries : t.Carries name) (hp : u.nameAt? p = some name) : t.nameAt? p = some name := by
  induction h with
  | done => exact hp
  | keep _ _ ih => exact ih hcarries hp
  | @assign t u q places assigned number hunnamed hleast _ ih =>
    have hkept := ih ((Table.carries_renameAt_iff hunnamed hname).2 (Or.inr hcarries)) hp
    by_cases hpq : p = q
    · subst hpq
      rw [Table.nameAt?_renameAt_self hunnamed] at hkept
      exact absurd (Option.some.inj hkept ▸ hcarries) hleast.1.2
    · rwa [Table.nameAt?_renameAt_of_ne hpq] at hkept

/-- A name that was given stands at no other place in the end. -/
theorem place_of_mem_assigned (h : NamingRun maxLength t places u assigned) {a : AssignedName}
    (ha : a ∈ assigned) (hp : u.nameAt? p = some a.name) : p = a.place := by
  induction h with
  | done => cases ha
  | keep _ _ ih => exact ih ha hp
  | @assign t u q places assigned number hunnamed hleast hrun ih =>
    rcases List.mem_cons.1 ha with rfl | ha
    · -- from the moment it is given the name is carried, so only this place can have it
      have hne : t.standardNameFor maxLength q number ≠ "" :=
        t.standardNameFor_ne_empty maxLength q number
      have hkept := hrun.nameAt?_of_carries hne
        ((Table.carries_renameAt_iff hunnamed hne).2 (Or.inl rfl)) hp
      by_contra hpq
      have hother : p ≠ q := hpq
      rw [Table.nameAt?_renameAt_of_ne hother] at hkept
      exact hleast.1.2 ⟨p, hkept⟩
    · exact ih ha hp

/-- The constraint that a name was given to has it in the end. -/
theorem nameAt?_place (h : NamingRun maxLength t places u assigned) {a : AssignedName}
    (ha : a ∈ assigned) : u.nameAt? a.place = some a.name := by
  induction h with
  | done => cases ha
  | keep _ _ ih => exact ih ha
  | assign hunnamed _ hrun ih =>
    rcases List.mem_cons.1 ha with rfl | ha
    · exact nameAt?_of_assign hunnamed hrun
    · exact ih ha

/-- The names given, in the order of the places, are those of the constraints that had none. -/
theorem assigned_eq (h : NamingRun maxLength t places u assigned) (hnodup : places.Nodup) :
    assigned = places.filterMap fun p =>
      if t.nameAt? p = some "" then (u.nameAt? p).map (⟨p.kind, p.position, ·⟩) else none := by
  induction h with
  | done => rfl
  | keep hnamed _ ih =>
    rw [List.filterMap_cons, if_neg hnamed]
    exact ih (List.nodup_cons.1 hnodup).2
  | @assign t u q places assigned number hunnamed _ hrun ih =>
    obtain ⟨hnot, hrest⟩ := List.nodup_cons.1 hnodup
    rw [List.filterMap_cons, if_pos hunnamed, nameAt?_of_assign hunnamed hrun, Option.map_some]
    refine congrArg _ ((ih hrest).trans (List.filterMap_congr fun p hp => ?_))
    have hne : p ≠ q := by
      rintro rfl
      exact hnot hp
    rw [Table.nameAt?_renameAt_of_ne hne]

end NamingRun

/-! ## The pass is a run -/

/-- Whether `put` puts constraints into a table with this name, as those of this kind from a position
on. -/
structure Collects {α : Type} [Named α] (table : String) (kind : ConstraintKind) (start : Nat)
    (put : List α → Table) : Prop where
  name : ∀ l, (put l).name = table
  nameAt? : ∀ l position, (put l).nameAt? ⟨kind, start + position⟩ = l[position]?.map Named.name
  renameAt : ∀ l position name, (put l).renameAt ⟨kind, start + position⟩ name =
    put (l.modify position (Named.rename · name))

theorem collects_foreignKeys (t : Table) :
    Collects t.name .foreignKey 0 fun keys => { t with foreignKeys := keys } := by
  constructor <;> simp [Table.nameAt?, Table.renameAt, Named.name]

theorem collects_indices (t : Table) :
    Collects t.name .index 0 fun indices => { t with indices } := by
  constructor <;> simp [Table.nameAt?, Table.renameAt, Named.name]

theorem collects_uniques (t : Table) :
    Collects t.name .unique 0 fun uniques => { t with uniques } := by
  constructor <;> simp [Table.nameAt?, Table.renameAt, Named.name]

section Collects

variable {α : Type} [Named α] {table : String} {kind : ConstraintKind} {start : Nat}
  {put : List α → Table}

/-- The constraints behind a first one stand one position further on. -/
theorem Collects.cons (h : Collects table kind start put) (a : α) :
    Collects table kind (start + 1) fun rest => put (a :: rest) where
  name l := h.name (a :: l)
  nameAt? l position := by
    rw [Nat.add_assoc, Nat.add_comm 1, h.nameAt?, List.getElem?_cons_succ]
  renameAt l position name := by
    rw [Nat.add_assoc, Nat.add_comm 1, h.renameAt, List.modify_succ_cons]

theorem Collects.nameAt?_cons (h : Collects table kind start put) (a : α) (rest : List α) :
    (put (a :: rest)).nameAt? ⟨kind, start⟩ = some (Named.name a) := h.nameAt? (a :: rest) 0

theorem Collects.renameAt_cons (h : Collects table kind start put) (a : α) (rest : List α)
    (name : String) :
    (put (a :: rest)).renameAt ⟨kind, start⟩ name = put (Named.rename a name :: rest) := by
  have hfirst := h.renameAt (a :: rest) 0 name
  rwa [List.modify_zero_cons] at hfirst

end Collects

/-- The generated name has the least free number, if the names remembered are those of the table. -/
theorem exists_isLeast_generate {t : Table} {taken : List String}
    (htaken : ∀ name, name ∈ taken ↔ name ∈ t.constraintNames) (maxLength : Nat)
    (p : ConstraintPlace) : ∃ number,
      (NameSource.standard t.name maxLength).generate p.kind taken p.position =
        t.standardNameFor maxLength p number ∧
      IsLeast {n | p.position + 1 ≤ n ∧ ¬ t.Carries (t.standardNameFor maxLength p n)} number := by
  obtain ⟨hfree, number, hle, -, hname, hskipped⟩ :=
    NameSource.generate_standard t.name maxLength p.kind taken p.position
  have hcarries : ∀ n, t.standardNameFor maxLength p n ∈ taken ↔
      t.Carries (t.standardNameFor maxLength p n) := by
    intro n
    rw [htaken, Table.mem_constraintNames_iff]
    exact and_iff_right (t.standardNameFor_ne_empty maxLength p n)
  refine ⟨number, hname, ⟨hle, ?_⟩, ?_⟩
  · rw [← hcarries]
    exact fun hmem => hfree (hname ▸ hmem)
  · rintro n ⟨hlow, hnot⟩
    by_contra hlt
    exact hnot ((hcarries n).1 (hskipped n hlow (Nat.not_le.1 hlt)))

/-- Filling in the names of a collection is a run over its places, if the names remembered are those
of the table, and they are those of the table again when it is done. -/
theorem Collects.namingRun_fillNames {α : Type} [Named α] {table : String} {kind : ConstraintKind}
    {start : Nat} {put : List α → Table} (h : Collects table kind start put) (maxLength : Nat)
    (l : List α) {taken : List String}
    (htaken : ∀ name, name ∈ taken ↔ name ∈ (put l).constraintNames) :
    let filled := fillNames (.standard table maxLength) kind start taken l
    NamingRun maxLength (put l) (ConstraintPlace.listed kind start l.length) (put filled.items)
        filled.assigned ∧
      ∀ name, name ∈ filled.taken ↔ name ∈ (put filled.items).constraintNames := by
  induction l generalizing start put taken with
  | nil => exact ⟨.done _, htaken⟩
  | cons a rest ih =>
    have hhere := h.nameAt?_cons a rest
    rw [List.length_cons, ConstraintPlace.listed_succ, fillNames]
    split
    · rename_i hunnamed
      rw [String.isEmpty_iff.1 hunnamed] at hhere
      obtain ⟨number, hname, hleast⟩ := exists_isLeast_generate htaken maxLength ⟨kind, start⟩
      rw [h.name] at hname
      dsimp only at hname ⊢
      rw [hname]
      have hrenamed := h.renameAt_cons a rest
        ((put (a :: rest)).standardNameFor maxLength ⟨kind, start⟩ number)
      have hnext : ∀ name,
          name ∈ (put (a :: rest)).standardNameFor maxLength ⟨kind, start⟩ number :: taken ↔
            name ∈ ((put (a :: rest)).renameAt ⟨kind, start⟩
              ((put (a :: rest)).standardNameFor maxLength ⟨kind, start⟩ number)).constraintNames := by
        intro name
        rw [List.mem_cons, htaken,
          Table.mem_constraintNames_renameAt_iff hhere (Table.standardNameFor_ne_empty _ _ _ _)]
      rw [hrenamed] at hnext
      obtain ⟨hrun, hnames⟩ := ih (h.cons _) hnext
      rw [← hrenamed] at hrun
      exact ⟨.assign hhere hleast hrun, hnames⟩
    · rename_i hnamed
      obtain ⟨hrun, hnames⟩ := ih (h.cons a) htaken
      refine ⟨.keep ?_ hrun, hnames⟩
      rw [hhere]
      exact fun hempty => hnamed (String.isEmpty_iff.2 (Option.some.inj hempty))

namespace Table

/-- What the pass does to a table is a run over all its places. -/
theorem namingRun_nameConstraints (t : Table) (maxLength : Nat) :
    NamingRun maxLength t t.constraintPlaces (t.nameConstraints .standard maxLength).1
      (t.nameConstraints .standard maxLength).2 := by
  let keys := fillNames (.standard t.name maxLength) .foreignKey 0 t.constraintNames t.foreignKeys
  let indices := fillNames (.standard t.name maxLength) .index 0 keys.taken t.indices
  let keysNamed : Table := { t with foreignKeys := keys.items }
  let indicesNamed : Table := { keysNamed with indices := indices.items }
  have hgiven : ∀ name, name ∈ t.constraintNames ↔ name ∈ t.constraintNames := fun _ => Iff.rfl
  obtain ⟨hkeys, htaken⟩ :=
    (collects_foreignKeys t).namingRun_fillNames maxLength t.foreignKeys hgiven
  obtain ⟨hindices, htaken⟩ :=
    (collects_indices keysNamed).namingRun_fillNames maxLength t.indices htaken
  obtain ⟨huniques, -⟩ :=
    (collects_uniques indicesNamed).namingRun_fillNames maxLength t.uniques htaken
  exact (hkeys.append hindices).append huniques

/-- **What the naming pass does.** The pass visits foreign keys, indices and unique constraints in
order; to each without a name it gives the standard name with the least number, from one above its
position on, that no constraint of the table carries at that moment. Nothing but these names changes,
afterwards no name is missing, a name that was given stands at no other place, the names returned are
those given, in the order of the visits, and a second pass gives none. -/
theorem nameConstraints_standard (t : Table) (maxLength : Nat) :
    ∃ u assigned, t.nameConstraints .standard maxLength = (u, assigned) ∧
      NamingRun maxLength t t.constraintPlaces u assigned ∧
      u.nameless = t.nameless ∧
      (∀ p name, name ≠ "" → t.nameAt? p = some name → u.nameAt? p = some name) ∧
      (∀ p, u.nameAt? p ≠ some "") ∧
      (∀ a ∈ assigned, ∀ p, u.nameAt? p = some a.name ↔ p = a.place) ∧
      (assigned = t.constraintPlaces.filterMap fun p =>
        if t.nameAt? p = some "" then (u.nameAt? p).map (⟨p.kind, p.position, ·⟩) else none) ∧
      u.nameConstraints .standard maxLength = (u, []) := by
  obtain ⟨u, assigned, hpass⟩ : ∃ u assigned, t.nameConstraints .standard maxLength = (u, assigned) :=
    ⟨_, _, rfl⟩
  have hrun := t.namingRun_nameConstraints maxLength
  have hnamed := t.constraintsNamed_nameConstraints maxLength
  rw [hpass] at hrun hnamed
  refine ⟨u, assigned, hpass, hrun, hrun.nameless_eq, ?_, ?_, ?_, hrun.assigned_eq t.nodup_constraintPlaces,
    nameConstraints_of_named hnamed .standard maxLength⟩
  · intro p name hne hp
    rw [hrun.nameAt?_eq (Or.inr _), hp]
    rw [hp]
    exact fun hempty => hne (Option.some.inj hempty)
  · intro p
    by_cases hp : p ∈ t.constraintPlaces
    · exact hrun.nameAt?_ne_empty hp
    · rw [hrun.nameAt?_eq (Or.inl hp)]
      exact fun hempty => hp (mem_constraintPlaces hempty)
  · intro a ha p
    exact ⟨hrun.place_of_mem_assigned ha, fun hp => hp ▸ hrun.nameAt?_place ha⟩

-- the second key leaves out the number whose name a unique constraint carries
example : (({ name := "book"
              foreignKeys := [{ foreignTable := "author" }, { foreignTable := "genre" }]
              uniques := [{ name := "book_FK_2", columns := [] }] } : Table).nameConstraints
    .standard 64).2 = [⟨.foreignKey, 0, "book_FK_1"⟩, ⟨.foreignKey, 1, "book_FK_3"⟩] := by
  decide +kernel

end Table

end RelSchema
