import Mathlib.Data.List.TakeDrop
import RelSchema.Defaults
import RelSchema.Diagnostic
import RelSchema.Platform

/-!
# Decoding what was encoded

What the readers of different formats have in common: scanning a text for the characters of a kind,
decoding the elements of a list, and finding an alternative by its label.
-/

namespace RelSchema

/-- The characters in front that `p` accepts end where a character follows that it does not. -/
theorem span_append {p : Char → Bool} {front rest : List Char} (hfront : ∀ c ∈ front, p c = true)
    (hrest : ∀ c ∈ rest.head?, p c = false) : (front ++ rest).span p = (front, rest) := by
  rw [List.span_eq_takeWhile_dropWhile, List.takeWhile_append_of_pos hfront,
    List.dropWhile_append_of_pos hfront]
  cases rest with
  | nil => simp
  | cons c rest => simp [hrest c rfl]

theorem mapM_map_eq_some {α β : Type} (encode : α → β) {decode : β → Option α} {as : List α}
    (h : ∀ a ∈ as, decode (encode a) = some a) : (as.map encode).mapM decode = some as := by
  induction as with
  | nil => rfl
  | cons a as ih =>
    rw [List.map_cons, List.mapM_cons, h a List.mem_cons_self,
      ih fun b hb => h b (List.mem_cons_of_mem a hb)]
    rfl

/-! ## Labels

No two alternatives share a label, so the label of each finds it again. -/

theorem DiagnosticCode.ofLabel?_label (c : DiagnosticCode) : ofLabel? c.label = some c := by
  cases c <;> decide

theorem Severity.ofLabel?_label (s : Severity) : ofLabel? s.label = some s := by
  cases s <;> decide

theorem Platform.ofLabel?_label (p : Platform) : ofLabel? p.label = some p := by
  cases p <;> decide

theorem IdMethod.ofLabel?_label (m : IdMethod) : ofLabel? m.label = some m := by
  cases m <;> decide

theorem NamingMethod.ofLabel?_label (m : NamingMethod) : ofLabel? m.label = some m := by
  cases m <;> decide

theorem StringFormat.ofLabel?_label (f : StringFormat) : ofLabel? f.label = some f := by
  cases f <;> decide

end RelSchema
