import Mathlib.Data.List.Induction
import Mathlib.Data.List.Nodup
import RelSchema.Proofs.CoverageEntries

/-!
# Coverage maps and their records

A coverage map goes through updates, and beside it stands a plainer account of them: the records
that no later update forgot (`CoverageMap.standing`). The names that the map gives for some columns
are those of the standing records that serve a list with the same text, in the order of recording
(`CoverageMap.covering_replay`). A list is known by its text only, so the answers are the ones for
leftmost prefixes exactly where no standing record serves another list with the text that is asked
for; a comma inside a column name can make two lists one (`CoverageMap.covering_replay_comma`).
-/

namespace RelSchema

/-- A change that a program makes to a coverage map. -/
inductive CoverageUpdate where
  | record (name : String) (columns : List String)
  | forget (name : String)
deriving DecidableEq, Repr

namespace CoverageMap

def update (m : CoverageMap) : CoverageUpdate → CoverageMap
  | .record name columns => m.record name columns
  | .forget name => m.forget name

/-- The map after these updates, from an empty one. -/
def replay (updates : List CoverageUpdate) : CoverageMap := updates.foldl update {}

theorem replay_snoc (updates : List CoverageUpdate) (u : CoverageUpdate) :
    replay (updates ++ [u]) = (replay updates).update u := by
  unfold replay
  rw [List.foldl_append]
  rfl

/-! ## Standing records -/

/-- The records, as names with columns, that are not followed by an update that forgets the name. -/
def standing : List CoverageUpdate → List (String × List String)
  | [] => []
  | .record name columns :: later =>
    if .forget name ∈ later then standing later else (name, columns) :: standing later
  | .forget _ :: later => standing later

theorem standing_snoc_record (updates : List CoverageUpdate) (name : String)
    (columns : List String) :
    standing (updates ++ [.record name columns]) = standing updates ++ [(name, columns)] := by
  induction updates with
  | nil => simp [standing]
  | cons u later ih =>
    cases u with
    | forget n => exact ih
    | record n cs =>
      by_cases h : CoverageUpdate.forget n ∈ later <;> simp [standing, h, ih]

theorem standing_snoc_forget (updates : List CoverageUpdate) (name : String) :
    standing (updates ++ [.forget name]) = (standing updates).filter (·.1 != name) := by
  induction updates with
  | nil => rfl
  | cons u later ih =>
    cases u with
    | forget n => exact ih
    | record n cs =>
      -- what was forgotten before stays so, and the new update forgets one name more
      by_cases h : CoverageUpdate.forget n ∈ later
      · simp [standing, h, ih]
      · by_cases hn : n = name
        · subst hn
          simp [standing, h, ih]
        · simp [standing, h, hn, ih]

/-! ## Texts of column lists -/

theorem columnKey_cons {column : String} {columns : List String} (h : columns ≠ []) :
    columnKey (column :: columns) = column ++ "," ++ columnKey columns :=
  String.intercalate_cons_of_ne_nil h

/-- The beginnings of one list have different texts, since a longer one has a longer text. -/
theorem nodup_servedKeys (columns : List String) : (servedKeys columns).Nodup := by
  induction columns with
  | nil => exact List.nodup_nil
  | cons column rest ih =>
    have hkeys : servedKeys (column :: rest) =
        column :: (servedKeys rest).map fun key => column ++ "," ++ key := by
      have hlonger : (leadingLists rest).map (fun list => columnKey (column :: list)) =
          (leadingLists rest).map fun list => column ++ "," ++ columnKey list := by
        apply List.map_congr_left
        intro list hlist
        exact columnKey_cons (mem_leadingLists_iff.1 hlist).1
      have hfirst : columnKey [column] = column := String.intercalate_singleton
      simp only [servedKeys, leadingLists, List.map_cons, List.map_map, Function.comp_def, hlonger,
        hfirst]
    rw [hkeys, List.nodup_cons]
    constructor
    · intro hmem
      obtain ⟨key, -, hkey⟩ := List.mem_map.1 hmem
      have hlength := congrArg String.length hkey
      simp only [String.length_append, show ",".length = 1 from rfl] at hlength
      omega
    · apply List.Nodup.map _ ih
      intro key key' h
      exact (String.append_right_inj _).1 h

/-- Lists of names without commas are told apart by their texts, if neither is empty. -/
theorem columnKey_injective {xs ys : List String} (hx : xs ≠ []) (hy : ys ≠ [])
    (hxs : ∀ c ∈ xs, ',' ∉ c.toList) (hys : ∀ c ∈ ys, ',' ∉ c.toList)
    (h : columnKey xs = columnKey ys) : xs = ys := by
  have hsplit : ∀ zs : List String, zs ≠ [] → (∀ c ∈ zs, ',' ∉ c.toList) →
      (columnKey zs).toList.splitOn ',' = zs.map String.toList := by
    intro zs hz hzs
    rw [columnKey, String.toList_intercalate]
    apply List.splitOn_intercalate
    · intro l hl
      obtain ⟨c, hc, rfl⟩ := List.mem_map.1 hl
      exact hzs c hc
    · simpa using hz
  have hlists : xs.map String.toList = ys.map String.toList := by
    rw [← hsplit xs hx hxs, h, hsplit ys hy hys]
  exact List.map_injective_iff.2 (fun _ _ => String.toList_inj.1) hlists

/-! ## Buckets -/

/-- The names that are listed under a key. -/
def bucket (m : CoverageMap) (key : String) : List String := (m.buckets.lookup key).getD []

/-- Whether no key has two buckets. -/
def KeysDistinct (m : CoverageMap) : Prop := (m.buckets.map (·.1)).Nodup

theorem isCovered_iff_covering_ne_nil {m : CoverageMap} (h : m.Tight) {columns : List String} :
    m.isCovered columns = true ↔ m.covering columns ≠ [] := by
  unfold isCovered covering
  cases hl : m.buckets.lookup (columnKey columns) with
  | none => simp
  | some names =>
    obtain ⟨before, after, hbuckets, -⟩ := List.lookup_eq_some_iff.1 hl
    have hmem : (columnKey columns, names) ∈ m.buckets := by simp [hbuckets]
    simpa using h _ hmem

theorem lookup_addTo (key name k : String) (buckets : List (String × List String)) :
    (addTo key name buckets).lookup k =
      if k = key then some ((buckets.lookup key).getD [] ++ [name]) else buckets.lookup k := by
  induction buckets with
  | nil => simp [addTo, KeyMap.lookup_cons_eq]
  | cons bucket rest ih =>
    obtain ⟨key', names⟩ := bucket
    by_cases hkey : key' = key
    · subst hkey
      by_cases hk : k = key' <;> simp [addTo, KeyMap.lookup_cons_eq, hk]
    · by_cases hk : k = key
      · subst hk
        simp [addTo, KeyMap.lookup_cons_eq, hkey, Ne.symm hkey, ih]
      · simp [addTo, KeyMap.lookup_cons_eq, hkey, hk, ih]

/-- Recording appends the name to the bucket of each list that is served, once. -/
theorem bucket_record (m : CoverageMap) (name key : String) (columns : List String) :
    (m.record name columns).bucket key =
      m.bucket key ++ if key ∈ servedKeys columns then [name] else [] := by
  have hfold : ∀ (lists : List (List String)) (buckets : List (String × List String)),
      (lists.map columnKey).Nodup →
      ((lists.foldl (fun bs list => addTo (columnKey list) name bs) buckets).lookup key).getD [] =
        (buckets.lookup key).getD [] ++ if key ∈ lists.map columnKey then [name] else [] := by
    intro lists
    induction lists with
    | nil => simp
    | cons list rest ih =>
      intro buckets hnodup
      rw [List.map_cons, List.nodup_cons] at hnodup
      rw [List.foldl_cons, ih _ hnodup.2, lookup_addTo]
      by_cases hkey : key = columnKey list
      · subst hkey
        simp [hnodup.1]
      · simp [hkey]
  exact hfold _ _ (nodup_servedKeys columns)

theorem keys_addTo (key name : String) (buckets : List (String × List String)) :
    (addTo key name buckets).map (·.1) =
      if key ∈ buckets.map (·.1) then buckets.map (·.1) else buckets.map (·.1) ++ [key] := by
  induction buckets with
  | nil => rfl
  | cons bucket rest ih =>
    obtain ⟨key', names⟩ := bucket
    by_cases hkey : key' = key
    · simp [addTo, hkey]
    · by_cases hmem : key ∈ rest.map (·.1) <;> simp_all [addTo, Ne.symm hkey]

theorem keysDistinct_record {m : CoverageMap} (h : m.KeysDistinct) (name : String)
    (columns : List String) : (m.record name columns).KeysDistinct := by
  have hfold : ∀ (lists : List (List String)) (buckets : List (String × List String)),
      (buckets.map (·.1)).Nodup →
      ((lists.foldl (fun bs list => addTo (columnKey list) name bs) buckets).map (·.1)).Nodup := by
    intro lists
    induction lists with
    | nil => exact fun _ h => h
    | cons list rest ih =>
      intro buckets hnodup
      apply ih
      rw [keys_addTo]
      split
      · exact hnodup
      · rename_i hnew
        rw [← List.concat_eq_append]
        exact List.Nodup.concat hnew hnodup
  exact hfold _ _ h

theorem keysDistinct_forget {m : CoverageMap} (h : m.KeysDistinct) (name : String) :
    (m.forget name).KeysDistinct := by
  have hsub : ((m.forget name).buckets.map (·.1)).Sublist (m.buckets.map (·.1)) := by
    unfold forget
    refine (List.filter_sublist.map _).trans ?_
    rw [List.map_map]
    exact List.Sublist.refl _
  exact h.sublist hsub

/-- Forgetting takes the name out of every bucket and leaves the order of the others. -/
theorem bucket_forget {m : CoverageMap} (h : m.KeysDistinct) (name key : String) :
    (m.forget name).bucket key = (m.bucket key).filter (· != name) := by
  obtain ⟨buckets⟩ := m
  unfold KeysDistinct at h
  unfold bucket forget
  dsimp only at h ⊢
  induction buckets with
  | nil => rfl
  | cons bucket rest ih =>
    obtain ⟨key', names⟩ := bucket
    rw [List.map_cons, List.nodup_cons] at h
    have ih := ih h.2
    rw [List.map_cons, List.filter_cons]
    dsimp only
    by_cases hkey : key = key'
    · subst hkey
      -- the bucket is the only one with its key, so nothing comes up if it is dropped
      have hrest : rest.lookup key = none := by
        rw [List.lookup_eq_none_iff]
        rintro ⟨key', names'⟩ hbucket
        have hne : key ≠ key' := by
          rintro rfl
          exact h.1 (List.mem_map.2 ⟨_, hbucket, rfl⟩)
        simpa using hne
      rw [hrest] at ih
      by_cases hempty : (names.filter (· != name)).isEmpty = true
      · rw [if_neg (by simp [hempty]), ih, KeyMap.lookup_cons_eq, if_pos rfl]
        exact (List.isEmpty_iff.1 hempty).symm
      · rw [if_pos (by simpa using hempty), KeyMap.lookup_cons_eq, KeyMap.lookup_cons_eq,
          if_pos rfl, if_pos rfl]
        rfl
    · rw [KeyMap.lookup_cons_eq key key', if_neg hkey, ← ih]
      split
      · rw [KeyMap.lookup_cons_eq, if_neg hkey]
      · rfl

/-! ## The map and the records -/

theorem tight_replay (updates : List CoverageUpdate) : (replay updates).Tight := by
  induction updates using List.reverseRecOn with
  | nil => simp [replay, Tight]
  | append_singleton updates u ih =>
    rw [replay_snoc]
    cases u with
    | record name columns => exact tight_record ih name columns
    | forget name => exact tight_forget _ name

theorem keysDistinct_replay (updates : List CoverageUpdate) : (replay updates).KeysDistinct := by
  induction updates using List.reverseRecOn with
  | nil => exact List.nodup_nil
  | append_singleton updates u ih =>
    rw [replay_snoc]
    cases u with
    | record name columns => exact keysDistinct_record ih name columns
    | forget name => exact keysDistinct_forget ih name

/-- The names of the standing records with a property of their columns, in order. -/
def standingNames (updates : List CoverageUpdate) (p : List String → Bool) : List String :=
  ((standing updates).filter fun r => p r.2).map (·.1)

/-- A bucket holds the names of the standing records that serve a list with its key. -/
theorem bucket_replay (updates : List CoverageUpdate) (key : String) :
    (replay updates).bucket key =
      standingNames updates fun columns => decide (key ∈ servedKeys columns) := by
  induction updates using List.reverseRecOn with
  | nil => rfl
  | append_singleton updates u ih =>
    rw [replay_snoc]
    cases u with
    | record name columns =>
      show ((replay updates).record name columns).bucket key = _
      rw [bucket_record, ih, standingNames, standingNames, standing_snoc_record]
      by_cases hkey : key ∈ servedKeys columns <;> simp [hkey]
    | forget name =>
      show ((replay updates).forget name).bucket key = _
      rw [bucket_forget (keysDistinct_replay updates), ih, standingNames, standingNames,
        standing_snoc_forget, List.filter_map, List.filter_filter, List.filter_filter]
      simp only [Function.comp_def, Bool.and_comm]

/-! ## Leftmost prefixes -/

/-- Whether the columns are a leftmost prefix of what was recorded, and not empty. -/
def leads (columns recorded : List String) : Bool := decide (columns ≠ [] ∧ columns <+: recorded)

theorem leads_iff {columns recorded : List String} :
    leads columns recorded = true ↔ columns ∈ leadingLists recorded := by
  rw [leads, decide_eq_true_iff, mem_leadingLists_iff]

theorem mem_servedKeys_of_leads {columns recorded : List String}
    (h : leads columns recorded = true) : columnKey columns ∈ servedKeys recorded :=
  List.mem_map_of_mem (leads_iff.1 h)

/-- Whether no standing record serves another list with the text of these columns. -/
def Unambiguous (updates : List CoverageUpdate) (columns : List String) : Prop :=
  ∀ r ∈ standing updates, ∀ beginning, leads beginning r.2 = true →
    columnKey beginning = columnKey columns → beginning = columns

/-- Then a standing record serves the text of the columns exactly if it serves the columns. -/
theorem unambiguous_iff {updates : List CoverageUpdate} {columns : List String} :
    Unambiguous updates columns ↔ ∀ r ∈ standing updates,
      columnKey columns ∈ servedKeys r.2 → leads columns r.2 = true := by
  constructor
  · intro h r hr hkey
    obtain ⟨beginning, hbeginning, hsame⟩ := List.mem_map.1 hkey
    rw [← h r hr beginning (leads_iff.2 hbeginning) hsame]
    exact leads_iff.2 hbeginning
  · intro h r hr beginning hbeginning hsame
    have hcolumns : leads columns r.2 = true := by
      apply h r hr
      rw [← hsame]
      exact mem_servedKeys_of_leads hbeginning
    -- both are beginnings of the record, and these have different texts
    exact List.inj_on_of_nodup_map (nodup_servedKeys r.2) (leads_iff.1 hbeginning)
      (leads_iff.1 hcolumns) hsame

theorem unambiguous_of_no_comma {updates : List CoverageUpdate} {columns : List String}
    (hcolumns : ∀ c ∈ columns, ',' ∉ c.toList)
    (hrecords : ∀ r ∈ standing updates, ∀ c ∈ r.2, ',' ∉ c.toList)
    (hempty : columns = [] → ∀ r ∈ standing updates, r.2.head? ≠ some "") :
    Unambiguous updates columns := by
  intro r hr beginning hbeginning hsame
  obtain ⟨hne, rest, hrest⟩ := mem_leadingLists_iff.1 (leads_iff.1 hbeginning)
  have hfree : ∀ c ∈ beginning, ',' ∉ c.toList := by
    intro c hc
    apply hrecords r hr
    rw [← hrest]
    exact List.mem_append_left _ hc
  by_cases hnil : columns = []
  · -- the one other list with the empty text holds the empty name
    subst hnil
    exfalso
    apply hempty rfl r hr
    cases beginning with
    | nil => exact absurd rfl hne
    | cons column others =>
      rw [← hrest]
      cases others with
      | nil => simpa [columnKey] using hsame
      | cons other others =>
        rw [columnKey_cons (List.cons_ne_nil _ _)] at hsame
        have hlength := congrArg String.length hsame
        simp [columnKey] at hlength
  · exact columnKey_injective hne hnil hfree hcolumns hsame

/-- Two tests of the columns, one stronger than the other, pick the same names only if they agree
on all standing records. -/
theorem standingNames_eq_iff {updates : List CoverageUpdate} {p q : List String → Bool}
    (h : ∀ columns, q columns = true → p columns = true) :
    standingNames updates p = standingNames updates q ↔
      ∀ r ∈ standing updates, p r.2 = true → q r.2 = true := by
  unfold standingNames
  constructor
  · intro heq
    have hlength := congrArg List.length heq
    rw [List.length_map, List.length_map] at hlength
    have hsub : ((standing updates).filter fun r => q r.2).Sublist
        ((standing updates).filter fun r => p r.2) :=
      List.monotone_filter_right _ fun r hr => h r.2 hr
    have hsame := hsub.eq_of_length hlength.symm
    intro r hr hp
    have hmem : r ∈ (standing updates).filter fun r => q r.2 := by
      rw [hsame]
      exact List.mem_filter.2 ⟨hr, hp⟩
    exact (List.mem_filter.1 hmem).2
  · intro hall
    congr 1
    apply List.filter_congr
    intro r hr
    rw [Bool.eq_iff_iff]
    exact ⟨hall r hr, h r.2⟩

theorem standingNames_ne_nil_iff {updates : List CoverageUpdate} {p : List String → Bool} :
    standingNames updates p ≠ [] ↔ ∃ r ∈ standing updates, p r.2 = true := by
  simp [standingNames]

/-- **What a coverage map answers.** The names given for some columns are those of the standing
records that serve a list with their text, in the order of recording, and the columns are covered
if there is such a record. These are the answers for leftmost prefixes exactly if no standing record
serves another list with that text; with names free of commas there is none. -/
theorem covering_replay (updates : List CoverageUpdate) (columns : List String) :
    (replay updates).covering columns =
        standingNames updates (fun recorded => decide (columnKey columns ∈ servedKeys recorded)) ∧
    ((replay updates).isCovered columns = true ↔
      ∃ r ∈ standing updates, columnKey columns ∈ servedKeys r.2) ∧
    ((replay updates).covering columns = standingNames updates (leads columns) ↔
      Unambiguous updates columns) ∧
    (Unambiguous updates columns → ((replay updates).isCovered columns = true ↔
      ∃ r ∈ standing updates, columns ≠ [] ∧ columns <+: r.2)) ∧
    ((∀ c ∈ columns, ',' ∉ c.toList) → (∀ r ∈ standing updates, ∀ c ∈ r.2, ',' ∉ c.toList) →
      (columns = [] → ∀ r ∈ standing updates, r.2.head? ≠ some "") →
        Unambiguous updates columns) := by
  have hcovering : (replay updates).covering columns =
      standingNames updates (fun recorded => decide (columnKey columns ∈ servedKeys recorded)) :=
    bucket_replay updates (columnKey columns)
  have hcovered : (replay updates).isCovered columns = true ↔
      ∃ r ∈ standing updates, columnKey columns ∈ servedKeys r.2 := by
    rw [isCovered_iff_covering_ne_nil (tight_replay updates), hcovering, standingNames_ne_nil_iff]
    simp only [decide_eq_true_eq]
  refine ⟨hcovering, hcovered, ?_, ?_, unambiguous_of_no_comma⟩
  · rw [hcovering, unambiguous_iff, standingNames_eq_iff]
    · simp only [decide_eq_true_eq]
    · intro recorded h
      exact decide_eq_true (mem_servedKeys_of_leads h)
  · intro h
    rw [hcovered]
    constructor
    · rintro ⟨r, hr, hkey⟩
      exact ⟨r, hr, of_decide_eq_true (unambiguous_iff.1 h r hr hkey)⟩
    · rintro ⟨r, hr, hleads⟩
      exact ⟨r, hr, mem_servedKeys_of_leads (decide_eq_true hleads)⟩

/-- An index is forgotten, and then its name is recorded again over other columns. -/
def recordedAgain : List CoverageUpdate :=
  [.record "i" ["a", "b"], .record "j" ["a"], .forget "i", .record "i" ["a", "c"]]

/-- The name stands with its new columns, behind what was recorded in between. -/
theorem covering_replay_recordedAgain :
    Unambiguous recordedAgain ["a"] ∧ Unambiguous recordedAgain ["a", "b"] ∧
      (replay recordedAgain).covering ["a"] = ["j", "i"] ∧
      (replay recordedAgain).covering ["a", "b"] = [] := by
  obtain ⟨-, -, hone, -, honeFree⟩ := covering_replay recordedAgain ["a"]
  obtain ⟨-, -, htwo, -, htwoFree⟩ := covering_replay recordedAgain ["a", "b"]
  have h : Unambiguous recordedAgain ["a"] := honeFree (by decide) (by decide) (by decide)
  have h' : Unambiguous recordedAgain ["a", "b"] := htwoFree (by decide) (by decide) (by decide)
  exact ⟨h, h', (hone.2 h).trans (by decide), (htwo.2 h').trans (by decide)⟩

/-- An index over one column whose name has a comma in it is taken for one over two columns. -/
theorem covering_replay_comma :
    (replay [.record "i" ["a,b"]]).isCovered ["a", "b"] = true ∧
      (replay [.record "i" ["a,b"]]).covering ["a", "b"] = ["i"] ∧
      standing [.record "i" ["a,b"]] = [("i", ["a,b"])] ∧ ¬ ["a", "b"] <+: ["a,b"] := by
  decide +kernel

end CoverageMap

end RelSchema
