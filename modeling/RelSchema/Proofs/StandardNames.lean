import Mathlib.Algebra.Group.Nat.Defs
import RelSchema.Naming.Strategy
import RelSchema.Platform

/-!
# Standard names

A standard name can be read from its end: the number follows the last underscore, the tag stands
between the last two, and what is left is the table part. So two scopes get the same name exactly
if they agree in kind and number and their tables are cut to the same beginning
(`standardName_eq_iff`). A name is no longer than the limit, unless its tag and number alone are.
-/

namespace RelSchema

namespace Text

theorem utf8ByteSize_ofList (cs : List Char) : (String.ofList cs).utf8ByteSize = byteCount cs := by
  induction cs with
  | nil => simp [byteCount]
  | cons c cs ih =>
    have hsplit : String.ofList (c :: cs) = String.singleton c ++ String.ofList cs := by
      rw [String.singleton_eq_ofList, ← String.ofList_append]
      rfl
    rw [hsplit, String.utf8ByteSize_append, ih, String.utf8ByteSize_singleton, byteCount]

theorem utf8ByteSize_eq_byteCount (s : String) : s.utf8ByteSize = byteCount s.toList := by
  rw [← utf8ByteSize_ofList, String.ofList_toList]

/-- What fits is not cut. -/
theorem takeBytes_of_le {limit : Nat} {cs : List Char} (h : byteCount cs ≤ limit) :
    takeBytes limit cs = cs := by
  induction cs generalizing limit with
  | nil => rfl
  | cons c cs ih =>
    rw [byteCount] at h
    rw [takeBytes, if_pos (by omega), ih (by omega)]

/-- The last place of a separator is determined by the text. -/
theorem append_separator_inj {c : Char} {xs ys u v : List Char} (hu : c ∉ u) (hv : c ∉ v)
    (h : xs ++ c :: u = ys ++ c :: v) : xs = ys ∧ u = v := by
  rcases List.append_eq_append_iff.1 h with ⟨as, hys, hrest⟩ | ⟨as, hxs, hrest⟩
  all_goals
    cases as with
    | nil => simp_all
    | cons a as => simp_all

/-! ## Decimal numbers -/

theorem underscore_not_mem_toString (n : Nat) : '_' ∉ (toString n).toList := by
  rw [Nat.toString_eq_repr, Nat.toList_repr]
  exact Nat.underscore_not_in_toDigits

theorem toString_nat_injective {n m : Nat} (h : toString n = toString m) : n = m := by
  rw [Nat.toString_eq_repr, Nat.toString_eq_repr] at h
  have hdigits : Nat.toDigits 10 n = Nat.toDigits 10 m := by
    rw [← Nat.toList_repr, ← Nat.toList_repr, h]
  have hread := congrArg (Nat.ofDigitChars 10 · 0) hdigits
  simpa only [Nat.ofDigitChars_ten_toDigits] using hread

/-- Digits take one byte each. -/
theorem byteCount_of_isDigit {cs : List Char} (h : ∀ c ∈ cs, c.isDigit = true) :
    byteCount cs = cs.length := by
  induction cs with
  | nil => rfl
  | cons c cs ih =>
    have hsize : c.utf8Size = 1 := by
      have hdigit := h c List.mem_cons_self
      simp only [Char.isDigit, Bool.and_eq_true, decide_eq_true_eq] at hdigit
      exact Char.utf8Size_eq_one_iff.2 (UInt32.le_trans hdigit.2 (by decide))
    rw [byteCount, hsize, ih fun d hd => h d (List.mem_cons_of_mem _ hd), List.length_cons,
      Nat.add_comm]

theorem utf8ByteSize_toString_le {n k : Nat} (hk : 0 < k) (h : n < 10 ^ k) :
    (toString n).utf8ByteSize ≤ k := by
  rw [Nat.toString_eq_repr, utf8ByteSize_eq_byteCount, Nat.toList_repr,
    byteCount_of_isDigit fun c hc => Nat.isDigit_of_mem_toDigits (by decide) (by decide) hc]
  exact (Nat.length_toDigits_le_iff (by decide) hk).2 h

end Text

theorem Platform.thirty_le_maxIdentifierLength (platform : Platform) :
    30 ≤ platform.maxIdentifierLength := by
  cases platform <;> decide

namespace ConstraintKind

theorem underscore_not_mem_tag (kind : ConstraintKind) : '_' ∉ kind.tag.toList := by
  cases kind <;> decide

theorem tag_injective {kind kind' : ConstraintKind} (h : kind.tag = kind'.tag) : kind = kind' := by
  cases kind <;> cases kind' <;> first | rfl | exact absurd h (by decide)

theorem utf8ByteSize_tag_le (kind : ConstraintKind) : kind.tag.utf8ByteSize ≤ 2 := by
  cases kind <;> decide

end ConstraintKind

namespace NameStrategy

/-- The table part of a standard name. -/
def stem (scope : ConstraintScope) : List Char :=
  Text.takeBytes (tableBudget scope) scope.table.toList

theorem toList_standardName (scope : ConstraintScope) : (standardName scope).toList =
    (stem scope ++ '_' :: scope.kind.tag.toList) ++ '_' :: (toString scope.number).toList := by
  simp [standardName, standardTail, stem]

/-! ## When two names are equal -/

/-- **Which scopes share a name**: those of one kind and number whose table parts are the same. -/
theorem standardName_eq_iff {a b : ConstraintScope} : standardName a = standardName b ↔
    a.kind = b.kind ∧ a.number = b.number ∧ stem a = stem b := by
  constructor
  · intro h
    have hlist := congrArg String.toList h
    rw [toList_standardName, toList_standardName] at hlist
    obtain ⟨hbody, hnumber⟩ := Text.append_separator_inj
      (Text.underscore_not_mem_toString a.number) (Text.underscore_not_mem_toString b.number) hlist
    obtain ⟨hstem, htag⟩ := Text.append_separator_inj
      a.kind.underscore_not_mem_tag b.kind.underscore_not_mem_tag hbody
    exact ⟨ConstraintKind.tag_injective (String.toList_inj.1 htag),
      Text.toString_nat_injective (String.toList_inj.1 hnumber), hstem⟩
  · rintro ⟨hkind, hnumber, hstem⟩
    rw [standardName, standardName, hkind, hnumber]
    exact congrArg (fun cs => String.ofList cs ++ standardTail b.kind b.number) hstem

/-- A table name that leaves room for tag and number stays as it is. -/
theorem stem_of_le {scope : ConstraintScope} (h : scope.table.utf8ByteSize ≤ tableBudget scope) :
    stem scope = scope.table.toList :=
  Text.takeBytes_of_le (Text.utf8ByteSize_eq_byteCount _ ▸ h)

/-- Scopes of different tables share a name only if one of the table names is cut. -/
theorem exists_cut_of_standardName_eq {a b : ConstraintScope} (h : standardName a = standardName b)
    (hne : a.table ≠ b.table) : tableBudget a < a.table.utf8ByteSize ∨
      tableBudget b < b.table.utf8ByteSize := by
  by_cases ha : a.table.utf8ByteSize ≤ tableBudget a
  · by_cases hb : b.table.utf8ByteSize ≤ tableBudget b
    · have hstem := (standardName_eq_iff.1 h).2.2
      rw [stem_of_le ha, stem_of_le hb] at hstem
      exact absurd (String.toList_inj.1 hstem) hne
    · exact Or.inr (Nat.not_le.1 hb)
  · exact Or.inl (Nat.not_le.1 ha)

/-! ## How long names are -/

theorem utf8ByteSize_standardTail_le {kind : ConstraintKind} {number k : Nat} (hk : 0 < k)
    (h : number < 10 ^ k) : (standardTail kind number).utf8ByteSize ≤ 4 + k := by
  have hseparator : "_".utf8ByteSize = 1 := rfl
  have htag := kind.utf8ByteSize_tag_le
  have hnumber := Text.utf8ByteSize_toString_le hk h
  simp only [standardTail, String.utf8ByteSize_append, hseparator]
  omega

/-- A name is within the limit if its tag and number are. -/
theorem utf8ByteSize_standardName_le {scope : ConstraintScope}
    (h : (standardTail scope.kind scope.number).utf8ByteSize ≤ scope.maxLength) :
    (standardName scope).utf8ByteSize ≤ scope.maxLength := by
  have hstem := Text.byteCount_takeBytes_le (tableBudget scope) scope.table.toList
  rw [standardName, String.utf8ByteSize_append, Text.utf8ByteSize_ofList]
  unfold tableBudget at hstem ⊢
  omega

end NameStrategy

end RelSchema
