import Mathlib.Order.Bounds.Basic
import RelSchema.Proofs.StandardNames

/-!
# Cut table names

The table part of a standard name is as much of the table's name as leaves room for the rest. It is
told here in two ways that come to the same. Of all beginnings of the table's name that have room it
is the longest (`Text.takeBytes_isGreatest`); and it ends where a search arrives that starts at the
last byte with room and goes back, byte by byte, until it stands between two characters
(`Text.lastBoundary?_takeBytes`). The search always arrives, since the start of a text is a boundary,
and it passes fewer bytes than a character has.
-/

namespace RelSchema

namespace Text

/-! ## Beginnings that fit -/

/-- A beginning that fits is part of the longest one. -/
theorem isPrefix_takeBytes {limit : Nat} {beginning cs : List Char} (h : beginning <+: cs)
    (hfits : byteCount beginning ≤ limit) : beginning <+: takeBytes limit cs := by
  induction beginning generalizing limit cs with
  | nil => exact List.nil_prefix
  | cons c beginning ih =>
    cases cs with
    | nil => exact absurd (List.prefix_nil.1 h) (List.cons_ne_nil _ _)
    | cons d cs =>
      obtain ⟨rfl, hrest⟩ := List.cons_prefix_cons.1 h
      rw [byteCount] at hfits
      rw [takeBytes, if_pos (by omega)]
      exact List.cons_prefix_cons.2 ⟨rfl, ih hrest (by omega)⟩

theorem byteCount_le_of_isPrefix {xs ys : List Char} (h : xs <+: ys) :
    byteCount xs ≤ byteCount ys := by
  obtain ⟨rest, rfl⟩ := h
  rw [byteCount_append]
  exact Nat.le_add_right _ _

/-- Of the beginnings within the limit, none has more bytes than the one that is kept. -/
theorem takeBytes_isGreatest (s : String) (limit : Nat) :
    IsGreatest {size | ∃ beginning more : String, s = beginning ++ more ∧
      beginning.utf8ByteSize = size ∧ size ≤ limit} (byteCount (takeBytes limit s.toList)) := by
  obtain ⟨rest, hrest⟩ := takeBytes_isPrefix limit s.toList
  refine ⟨⟨String.ofList (takeBytes limit s.toList), String.ofList rest, ?_,
    utf8ByteSize_ofList _, byteCount_takeBytes_le limit s.toList⟩, ?_⟩
  · rw [← String.ofList_append, hrest, String.ofList_toList]
  · rintro _ ⟨beginning, more, rfl, rfl, hfits⟩
    rw [utf8ByteSize_eq_byteCount] at hfits ⊢
    exact byteCount_le_of_isPrefix
      (isPrefix_takeBytes ⟨more.toList, (String.toList_append ..).symm⟩ hfits)

/-- What is left of the limit is less than a character, unless nothing is cut off. -/
theorem takeBytes_tight (limit : Nat) (cs : List Char) :
    takeBytes limit cs = cs ∨ limit < byteCount (takeBytes limit cs) + 4 := by
  obtain ⟨rest, hrest⟩ := takeBytes_isPrefix limit cs
  cases rest with
  | nil => exact Or.inl ((List.append_nil _).symm.trans hrest)
  | cons c rest =>
    refine Or.inr (Nat.not_le.1 fun hroom => ?_)
    -- with room for another character the kept beginning would not be the longest
    have hlonger : takeBytes limit cs ++ [c] <+: cs := ⟨rest, by simpa using hrest⟩
    have hsize : byteCount (takeBytes limit cs ++ [c]) =
        byteCount (takeBytes limit cs) + c.utf8Size := by
      rw [byteCount_append, byteCount, byteCount, Nat.add_zero]
    have hwidth := c.utf8Size_le_four
    have hkept := byteCount_le_of_isPrefix
      (isPrefix_takeBytes hlonger (show byteCount _ ≤ limit by omega))
    have hpos := c.utf8Size_pos
    omega

/-! ## Searching back for a boundary -/

/-- The first boundary between characters from a place in the bytes of a text on, going back; none
if the search comes to the start and that is no boundary. -/
def lastBoundary? (s : String) : Nat → Option Nat
  | 0 => if String.Pos.Raw.isValid s ⟨0⟩ then some 0 else none
  | place + 1 =>
    if String.Pos.Raw.isValid s ⟨place + 1⟩ then some (place + 1) else lastBoundary? s place

variable {s : String} {place : Nat}

/-- A search finds the last boundary that is not behind its place. -/
theorem lastBoundary?_eq_some_iff {found : Nat} : lastBoundary? s place = some found ↔
    IsGreatest {p | p ≤ place ∧ String.Pos.Raw.IsValid s ⟨p⟩} found := by
  induction place with
  | zero =>
    rw [lastBoundary?, Option.ite_none_right_eq_some, String.Pos.Raw.isValid_eq_true_iff]
    constructor
    · rintro ⟨hvalid, hfound⟩
      cases hfound
      exact ⟨⟨Nat.le_refl 0, hvalid⟩, fun p hp => hp.1⟩
    · rintro ⟨⟨hle, hvalid⟩, -⟩
      obtain rfl := Nat.le_zero.1 hle
      exact ⟨hvalid, rfl⟩
  | succ place ih =>
    rw [lastBoundary?]
    split
    · rename_i hvalid
      have hgreatest : IsGreatest {p | p ≤ place + 1 ∧ String.Pos.Raw.IsValid s ⟨p⟩} (place + 1) :=
        ⟨⟨Nat.le_refl _, String.Pos.Raw.isValid_eq_true_iff.1 hvalid⟩, fun p hp => hp.1⟩
      rw [Option.some.injEq]
      exact ⟨fun h => h ▸ hgreatest, fun h => hgreatest.unique h⟩
    · rename_i hnot
      -- the place itself is no boundary, so the search may as well start before it
      have hsame : {p | p ≤ place + 1 ∧ String.Pos.Raw.IsValid s ⟨p⟩} =
          {p | p ≤ place ∧ String.Pos.Raw.IsValid s ⟨p⟩} := by
        ext p
        refine and_congr_left fun hvalid => ⟨fun hle => ?_, Nat.le_succ_of_le⟩
        refine Nat.le_of_lt_succ (Nat.lt_of_le_of_ne hle ?_)
        rintro rfl
        exact hnot (String.Pos.Raw.isValid_eq_true_iff.2 hvalid)
      rw [hsame, ih]

/-- **The search ends where the longest beginning ends.** -/
theorem lastBoundary?_takeBytes (s : String) (limit : Nat) :
    lastBoundary? s (min s.utf8ByteSize limit) = some (byteCount (takeBytes limit s.toList)) := by
  -- the boundaries of a text are the ends of its beginnings
  have hboundaries : {p | p ≤ min s.utf8ByteSize limit ∧ String.Pos.Raw.IsValid s ⟨p⟩} =
      {size | ∃ beginning more : String, s = beginning ++ more ∧
        beginning.utf8ByteSize = size ∧ size ≤ limit} := by
    ext p
    simp only [Set.mem_ofPred_eq, String.Pos.Raw.isValid_iff_exists_append]
    constructor
    · rintro ⟨hle, beginning, more, hsplit, hend⟩
      exact ⟨beginning, more, hsplit, (congrArg String.Pos.Raw.byteIdx hend).symm,
        hle.trans (Nat.min_le_right _ _)⟩
    · rintro ⟨beginning, more, rfl, rfl, hle⟩
      refine ⟨Nat.le_min.2 ⟨?_, hle⟩, beginning, more, rfl, rfl⟩
      rw [String.utf8ByteSize_append]
      exact Nat.le_add_right _ _
  rw [lastBoundary?_eq_some_iff, hboundaries]
  exact takeBytes_isGreatest s limit

-- each of these characters has two bytes
example : lastBoundary? "ééé" 5 = some 4 := by decide +kernel

end Text

namespace NameStrategy

/-! ## The table part of a name -/

/-- The bytes of a name that do not belong to the table part: tag, number and two separators. -/
def tailBytes (scope : ConstraintScope) : Nat :=
  scope.kind.tag.utf8ByteSize + (toString scope.number).utf8ByteSize + 2

/-- The name for a scope when nothing limits its length. -/
def wholeName (scope : ConstraintScope) : String :=
  scope.table ++ "_" ++ scope.kind.tag ++ "_" ++ toString scope.number

theorem utf8ByteSize_standardTail (scope : ConstraintScope) :
    (standardTail scope.kind scope.number).utf8ByteSize = tailBytes scope := by
  have hseparator : "_".utf8ByteSize = 1 := rfl
  simp only [standardTail, String.utf8ByteSize_append, hseparator, tailBytes]
  omega

theorem utf8ByteSize_wholeName (scope : ConstraintScope) :
    (wholeName scope).utf8ByteSize = scope.table.utf8ByteSize + tailBytes scope := by
  have hseparator : "_".utf8ByteSize = 1 := rfl
  simp only [wholeName, String.utf8ByteSize_append, hseparator, tailBytes]
  omega

theorem append_standardTail (body : String) (scope : ConstraintScope) :
    body ++ standardTail scope.kind scope.number =
      body ++ "_" ++ scope.kind.tag ++ "_" ++ toString scope.number := by
  simp only [standardTail, String.append_assoc]

/-- The tag and the number of a 64-bit count leave room on every platform. -/
theorem tailBytes_le_maxIdentifierLength {scope : ConstraintScope} (h : scope.number < 2 ^ 64)
    (platform : Platform) : tailBytes scope ≤ platform.maxIdentifierLength := by
  have htail : (standardTail scope.kind scope.number).utf8ByteSize ≤ 4 + 20 :=
    utf8ByteSize_standardTail_le (by decide) (h.trans (by decide))
  have hplatform := platform.thirty_le_maxIdentifierLength
  rw [utf8ByteSize_standardTail] at htail
  omega

/-- **How names are cut.** A standard name is a beginning of the table's name, then tag and number.
The beginning is the longest one that leaves room for them; it ends at the boundary that a search
finds, going back from the last byte with room, and the search passes at most three bytes. A name
that fits is not cut, and every name fits if its tag and number do, as they do on all platforms. -/
theorem standardName_cut (scope : ConstraintScope) : ∃ body rest : String,
    scope.table = body ++ rest ∧
    standardName scope = body ++ "_" ++ scope.kind.tag ++ "_" ++ toString scope.number ∧
    IsGreatest {size | ∃ beginning more : String, scope.table = beginning ++ more ∧
      beginning.utf8ByteSize = size ∧ size ≤ scope.maxLength - tailBytes scope}
        body.utf8ByteSize ∧
    Text.lastBoundary? scope.table
        (min scope.table.utf8ByteSize (scope.maxLength - tailBytes scope)) =
      some body.utf8ByteSize ∧
    min scope.table.utf8ByteSize (scope.maxLength - tailBytes scope) ≤ body.utf8ByteSize + 3 ∧
    ((wholeName scope).utf8ByteSize ≤ scope.maxLength → standardName scope = wholeName scope) ∧
    (tailBytes scope ≤ scope.maxLength → (standardName scope).utf8ByteSize ≤ scope.maxLength) ∧
    (scope.number < 2 ^ 64 →
      ∀ platform : Platform, tailBytes scope ≤ platform.maxIdentifierLength) := by
  have hbudget : tableBudget scope = scope.maxLength - tailBytes scope := by
    rw [tableBudget, utf8ByteSize_standardTail]
  obtain ⟨rest, hrest⟩ := Text.takeBytes_isPrefix (tableBudget scope) scope.table.toList
  have hsize : (String.ofList (stem scope)).utf8ByteSize =
      Text.byteCount (Text.takeBytes (scope.maxLength - tailBytes scope) scope.table.toList) := by
    rw [Text.utf8ByteSize_ofList, stem, hbudget]
  refine ⟨String.ofList (stem scope), String.ofList rest, ?_, append_standardTail _ scope, ?_, ?_,
    ?_, ?_, ?_, tailBytes_le_maxIdentifierLength⟩
  · rw [← String.ofList_append, stem, hrest, String.ofList_toList]
  · rw [hsize]
    exact Text.takeBytes_isGreatest _ _
  · rw [hsize]
    exact Text.lastBoundary?_takeBytes _ _
  · rw [hsize]
    rcases Text.takeBytes_tight (scope.maxLength - tailBytes scope) scope.table.toList with
      hwhole | htight
    · rw [hwhole, ← Text.utf8ByteSize_eq_byteCount]
      omega
    · omega
  · intro hfits
    rw [utf8ByteSize_wholeName] at hfits
    rw [standardName, append_standardTail, Text.takeBytes_of_le, String.ofList_toList, wholeName]
    rw [← Text.utf8ByteSize_eq_byteCount, hbudget]
    omega
  · intro hfits
    exact utf8ByteSize_standardName_le (by rwa [utf8ByteSize_standardTail])

end NameStrategy

end RelSchema
