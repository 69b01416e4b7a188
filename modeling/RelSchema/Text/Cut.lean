/-!
# Cutting a text to a number of bytes

Identifier limits count bytes of UTF-8, while a cut may not split a character. `takeBytes n` keeps
the longest beginning of a text that has at most `n` bytes and ends between two characters.
-/

namespace RelSchema.Text

/-- The number of bytes that the characters take in UTF-8. -/
def byteCount : List Char → Nat
  | [] => 0
  | c :: rest => c.utf8Size + byteCount rest

/-- The longest beginning with at most `limit` bytes. -/
def takeBytes : Nat → List Char → List Char
  | _, [] => []
  | limit, c :: rest =>
    if c.utf8Size ≤ limit then c :: takeBytes (limit - c.utf8Size) rest else []

theorem byteCount_append (xs ys : List Char) :
    byteCount (xs ++ ys) = byteCount xs + byteCount ys := by
  induction xs with
  | nil => simp [byteCount]
  | cons c xs ih => simp [byteCount, ih, Nat.add_assoc]

theorem byteCount_takeBytes_le (limit : Nat) (cs : List Char) :
    byteCount (takeBytes limit cs) ≤ limit := by
  induction cs generalizing limit with
  | nil => simp [takeBytes, byteCount]
  | cons c cs ih =>
    simp only [takeBytes]
    split
    · have := ih (limit - c.utf8Size)
      simp only [byteCount]
      omega
    · simp [byteCount]

theorem takeBytes_isPrefix (limit : Nat) (cs : List Char) : takeBytes limit cs <+: cs := by
  induction cs generalizing limit with
  | nil => simp [takeBytes]
  | cons c cs ih =>
    simp only [takeBytes]
    split
    · exact List.cons_prefix_cons.2 ⟨rfl, ih _⟩
    · exact List.nil_prefix

end RelSchema.Text
