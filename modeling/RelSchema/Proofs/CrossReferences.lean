import RelSchema.Proofs.ReferrerEdges

/-!
# Many-to-many relations

The relations of a table are read off its referrers, so they are as right as linking left those. Once
a run of linking went through, a table is related by each pair of different keys of a cross-reference
table of which the first points at it, and by nothing else. Turned round, a pair relates the table at
its other end, so relations are symmetric.
-/

namespace RelSchema

/-! ## Pairs of keys -/

/-- The same two keys, seen from the other end. -/
def CrossForeignKeys.reversed (c : CrossForeignKeys) : CrossForeignKeys :=
  ⟨c.middleTable, c.outgoing, c.incoming⟩

/-- The places of the other keys, in order. -/
theorem Table.map_otherForeignKeys {β : Type} (t : Table) (position : Nat) (f : Nat → β) :
    (t.otherForeignKeys position).map (fun p => f p.1) =
      ((List.range t.foreignKeys.length).filter (· != position)).map f := by
  have hplaces : (t.foreignKeys.zipIdx.map Prod.swap).map Prod.fst =
      List.range t.foreignKeys.length := by
    rw [List.map_map, List.range_eq_range', ← List.zipIdx_map_snd 0 t.foreignKeys]
    rfl
  rw [← hplaces, List.filter_map, List.map_map]
  rfl

namespace Database

variable {db db' : Database} {incoming : ForeignKeyId} {c : CrossForeignKeys} {t : Table}
  {id : TableId}

theorem crossPairs_eq (db : Database) (incoming : ForeignKeyId) : db.crossPairs incoming =
    (db.table? incoming.table).elim [] fun middle =>
      if middle.isCrossRef then
        ((List.range middle.foreignKeys.length).filter (· != incoming.position)).map fun position =>
          ⟨incoming.table, incoming, ⟨incoming.table, position⟩⟩
      else [] := by
  unfold crossPairs
  split
  · rename_i hmiddle
    rw [hmiddle]
    rfl
  · rename_i middle hmiddle
    rw [hmiddle, Option.elim_some]
    split
    · exact middle.map_otherForeignKeys incoming.position fun position =>
        CrossForeignKeys.mk incoming.table incoming ⟨incoming.table, position⟩
    · rfl

/-- Whether the second key is another key of the cross-reference table that the first belongs to. -/
def Pairs (db : Database) (c : CrossForeignKeys) : Prop :=
  ∃ middle, db.table? c.middleTable = some middle ∧ middle.isCrossRef = true ∧
    c.incoming.table = c.middleTable ∧ c.outgoing.table = c.middleTable ∧
    c.outgoing.position < middle.foreignKeys.length ∧ c.outgoing.position ≠ c.incoming.position

theorem mem_crossPairs_iff :
    c ∈ db.crossPairs incoming ↔ c.incoming = incoming ∧ db.Pairs c := by
  rw [crossPairs_eq]
  constructor
  · intro hc
    cases hmiddle : db.table? incoming.table with
    | none =>
      rw [hmiddle] at hc
      cases hc
    | some middle =>
      rw [hmiddle, Option.elim_some] at hc
      split at hc
      · rename_i hcross
        obtain ⟨position, hposition, rfl⟩ := List.mem_map.1 hc
        obtain ⟨hrange, hother⟩ := List.mem_filter.1 hposition
        exact ⟨rfl, middle, hmiddle, hcross, rfl, rfl, List.mem_range.1 hrange, bne_iff_ne.1 hother⟩
      · cases hc
  · rintro ⟨rfl, middle, hmiddle, hcross, hincoming, houtgoing, hlt, hother⟩
    rw [hincoming, hmiddle, Option.elim_some, if_pos hcross]
    refine List.mem_map.2 ⟨c.outgoing.position, ?_, ?_⟩
    · exact List.mem_filter.2 ⟨List.mem_range.2 hlt, bne_iff_ne.2 hother⟩
    · exact congrArg
        (fun table => CrossForeignKeys.mk c.middleTable c.incoming ⟨table, c.outgoing.position⟩)
        houtgoing.symm

theorem nodup_crossPairs (db : Database) (incoming : ForeignKeyId) :
    (db.crossPairs incoming).Nodup := by
  rw [crossPairs_eq]
  cases db.table? incoming.table with
  | none => exact List.nodup_nil
  | some middle =>
    rw [Option.elim_some]
    split
    · refine List.Pairwise.map _ (fun p q hne heq => ?_) (List.nodup_range.filter _)
      exact hne (congrArg (·.outgoing.position) heq)
    · exact List.nodup_nil

theorem PointsAt.lt {table : String} (h : db.PointsAt incoming table)
    (ht : db.table? incoming.table = some t) : incoming.position < t.foreignKeys.length := by
  obtain ⟨key, hkey, -⟩ := h
  rw [foreignKey?, ht] at hkey
  exact (List.getElem?_eq_some_iff.1 hkey).1

/-- When the first key points at a table, it is paired with the second in its turn. -/
theorem Pairs.reversed {table : String} (h : db.Pairs c) (hpoints : db.PointsAt c.incoming table) :
    db.Pairs c.reversed := by
  obtain ⟨middle, hmiddle, hcross, hincoming, houtgoing, -, hne⟩ := h
  rw [← hincoming] at hmiddle
  have hlt := hpoints.lt hmiddle
  rw [hincoming] at hmiddle
  exact ⟨middle, hmiddle, hcross, houtgoing, hincoming, hlt, hne.symm⟩

/-! ## Relations of a table -/

/-- Whether table names are unique and the referrers of each table are exactly the handles of the keys
that point at it, each recorded once. -/
structure ReferrersExact (db : Database) : Prop where
  names : (db.tables.map (·.name)).Nodup
  nodup : ∀ t ∈ db.tables, t.referrers.Nodup
  mem_iff : ∀ t ∈ db.tables, ∀ key, key ∈ t.referrers ↔ db.PointsAt key t.name

theorem ReferrersExact.mem_crossForeignKeys_iff (h : db.ReferrersExact)
    (ht : db.table? id = some t) :
    c ∈ db.crossForeignKeys id ↔ db.Pairs c ∧ db.PointsAt c.incoming t.name := by
  rw [← h.mem_iff t (List.mem_of_getElem? ht)]
  unfold crossForeignKeys
  rw [ht]
  dsimp only
  rw [List.mem_flatMap]
  constructor
  · rintro ⟨incoming, hincoming, hc⟩
    obtain ⟨rfl, hpairs⟩ := mem_crossPairs_iff.1 hc
    exact ⟨hpairs, hincoming⟩
  · rintro ⟨hpairs, hincoming⟩
    exact ⟨c.incoming, hincoming, mem_crossPairs_iff.2 ⟨rfl, hpairs⟩⟩

theorem ReferrersExact.nodup_crossForeignKeys (h : db.ReferrersExact) (id : TableId) :
    (db.crossForeignKeys id).Nodup := by
  unfold crossForeignKeys
  split
  · exact List.nodup_nil
  · rename_i t ht
    refine List.nodup_flatMap.2 ⟨fun key _ => nodup_crossPairs db key, ?_⟩
    refine (h.nodup t (List.mem_of_getElem? ht)).imp fun {key key'} hne => ?_
    intro c hc hc'
    -- a pair tells the referrer that it was made for
    exact hne ((mem_crossPairs_iff.1 hc).1.symm.trans (mem_crossPairs_iff.1 hc').1)

/-! ## Linked databases -/

/-- What relations are read off: names, what the keys of each table refer to, and its referrers. -/
def linkage (db : Database) : List (String × List (String × List ColumnPair) × List ForeignKeyId) :=
  db.tables.map fun t => (t.name, t.foreignKeys.map (·.reference), t.referrers)

theorem exists_table?_of_linkage_eq (h : db'.linkage = db.linkage) (ht : db.table? id = some t) :
    ∃ t', db'.table? id = some t' ∧ t'.name = t.name ∧
      t'.foreignKeys.map (·.reference) = t.foreignKeys.map (·.reference) ∧
      t'.referrers = t.referrers := by
  have hplace := congrArg (·[id.index]?) h
  simp only [linkage, List.getElem?_map] at hplace
  rw [show db.tables[id.index]? = some t from ht] at hplace
  obtain ⟨t', ht', hsame⟩ := Option.map_eq_some_iff.1 hplace
  exact ⟨t', ht', congrArg (·.1) hsame, congrArg (·.2.1) hsame, congrArg (·.2.2) hsame⟩

theorem keysExtend_of_linkage_eq (h : db'.linkage = db.linkage) : db.KeysExtend db' := by
  intro key fk hfk
  obtain ⟨t, ht, hposition⟩ := Option.bind_eq_some_iff.1 hfk
  obtain ⟨t', ht', -, hkeys, -⟩ := exists_table?_of_linkage_eq h ht
  have hplace := congrArg (·[key.position]?) hkeys
  simp only [List.getElem?_map] at hplace
  rw [hposition] at hplace
  obtain ⟨fk', hfk', hsame⟩ := Option.map_eq_some_iff.1 hplace
  refine ⟨fk', ?_, hsame⟩
  rw [foreignKey?, ht']
  exact hfk'

theorem ReferrersExact.of_linkage_eq (h : db.ReferrersExact) (hsame : db'.linkage = db.linkage) :
    db'.ReferrersExact := by
  have hback : ∀ t' ∈ db'.tables, ∃ t ∈ db.tables, t.name = t'.name ∧ t.referrers = t'.referrers := by
    intro t' ht'
    obtain ⟨id, hid⟩ := exists_table?_of_mem ht'
    obtain ⟨t, ht, hname, -, hreferrers⟩ := exists_table?_of_linkage_eq hsame.symm hid
    exact ⟨t, List.mem_of_getElem? ht, hname, hreferrers⟩
  constructor
  case names =>
    have hnames : db'.tables.map (·.name) = db.tables.map (·.name) := by
      have hfirst := congrArg (List.map Prod.fst) hsame
      rw [linkage, linkage, List.map_map, List.map_map] at hfirst
      exact hfirst
    rw [hnames]
    exact h.names
  case nodup =>
    intro t' ht'
    obtain ⟨t, ht, -, hreferrers⟩ := hback t' ht'
    exact hreferrers ▸ h.nodup t ht
  case mem_iff =>
    intro t' ht' key
    obtain ⟨t, ht, hname, hreferrers⟩ := hback t' ht'
    rw [← hreferrers, ← hname, h.mem_iff t ht]
    exact ⟨.mono (keysExtend_of_linkage_eq hsame), .mono (keysExtend_of_linkage_eq hsame.symm)⟩

theorem Settled.referrersExact (h : db.Settled) (hc : db.Consistent) : db.ReferrersExact where
  names := hc.names
  nodup _ ht := (h.edgesExact hc ht).nodup
  mem_iff _ ht := (h.edgesExact hc ht).mem_iff

end Database

/-- **Relations are exact and symmetric.** After a run of linking that was not refused, and as long as
names, references and referrers stay as it left them, a table is related by each pair of different
keys of a cross-reference table of which the first points at it, by each once and by no others. The
reversed pair relates the table that the second key points at. -/
theorem Resolver.crossForeignKeys_link {r : Resolver} {s : Resolution} {db : Database}
    (hb : s.db.Built) (h : (r.link s).error = none)
    (hlinked : db.linkage = (r.link s).state.db.linkage) {id : TableId} {t : Table}
    (ht : db.table? id = some t) :
    (db.crossForeignKeys id).Nodup ∧
    (∀ c, c ∈ db.crossForeignKeys id ↔ db.Pairs c ∧ db.PointsAt c.incoming t.name) ∧
    ∀ c ∈ db.crossForeignKeys id, ∀ other u, db.table? other = some u →
      db.PointsAt c.outgoing u.name → c.reversed ∈ db.crossForeignKeys other := by
  have hsettled : (r.link s).state.db.Settled := by
    rw [db_link h]
    exact s.db.settled_linked
  have hexact : db.ReferrersExact :=
    (hsettled.referrersExact hb.link.consistent).of_linkage_eq hlinked
  refine ⟨hexact.nodup_crossForeignKeys id, fun c => hexact.mem_crossForeignKeys_iff ht, ?_⟩
  intro c hc other u hu hpoints
  obtain ⟨hpairs, hincoming⟩ := (hexact.mem_crossForeignKeys_iff ht).1 hc
  exact (hexact.mem_crossForeignKeys_iff hu).2 ⟨hpairs.reversed hincoming, hpoints⟩

/-- People who are friends, in a city that is not declared. -/
def friendships : Database :=
  ({ name := "club" } : Database).withTables
    [{ name := "person"
       columns := Columns.empty.push
         { name := "id", columnType := .integer, primaryKey := true } (Columns.not_contains_empty "id") },
     { name := "friendship"
       isCrossRef := true
       columns := Columns.empty.push
         { name := "of", columnType := .integer } (Columns.not_contains_empty "of")
       foreignKeys := [{ foreignTable := "person", references := [⟨"of", "id"⟩] },
         { foreignTable := "person", references := [⟨"of", "id"⟩] },
         { foreignTable := "city", references := [⟨"of", "id"⟩] }] }]

theorem built_friendships : friendships.Built := by
  refine Database.Built.addTables (.new rfl) (List.forall_mem_cons.2 ⟨⟨rfl, ?_⟩,
    List.forall_mem_cons.2 ⟨⟨rfl, ?_⟩, List.forall_mem_nil _⟩⟩)
    (Database.addTables_of_nodup ?_)
  · decide +kernel
  · decide +kernel
  · decide +kernel

def linkedFriendships : Walk Resolution :=
  ({} : Resolver).link ⟨friendships, { timestamp := "" }⟩

/-- Both keys at the table of persons are paired with each other and with the key that dangles. -/
theorem crossForeignKeys_link_friendships :
    friendships.Built ∧ linkedFriendships.error = none ∧
    linkedFriendships.state.db.crossForeignKeys ⟨0⟩ =
      [⟨⟨1⟩, ⟨⟨1⟩, 0⟩, ⟨⟨1⟩, 1⟩⟩, ⟨⟨1⟩, ⟨⟨1⟩, 0⟩, ⟨⟨1⟩, 2⟩⟩,
        ⟨⟨1⟩, ⟨⟨1⟩, 1⟩, ⟨⟨1⟩, 0⟩⟩, ⟨⟨1⟩, ⟨⟨1⟩, 1⟩, ⟨⟨1⟩, 2⟩⟩] ∧
    ∀ t, linkedFriendships.state.db.table? ⟨0⟩ = some t →
      (linkedFriendships.state.db.crossForeignKeys ⟨0⟩).Nodup ∧
      (∀ c, c ∈ linkedFriendships.state.db.crossForeignKeys ⟨0⟩ ↔
        linkedFriendships.state.db.Pairs c ∧
          linkedFriendships.state.db.PointsAt c.incoming t.name) ∧
      ∀ c ∈ linkedFriendships.state.db.crossForeignKeys ⟨0⟩, ∀ other u,
        linkedFriendships.state.db.table? other = some u →
        linkedFriendships.state.db.PointsAt c.outgoing u.name →
        c.reversed ∈ linkedFriendships.state.db.crossForeignKeys other :=
  ⟨built_friendships, by decide +kernel, by decide +kernel, fun _ ht =>
    Resolver.crossForeignKeys_link built_friendships (by decide +kernel) rfl ht⟩

end RelSchema
