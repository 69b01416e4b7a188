/-!
# Splitting and replacing

`segments sep` cuts a text at every character that `sep` accepts; the pieces between two
neighbouring separators, and before a leading or after a trailing one, are empty.
`replaceLast` exchanges the last occurrence of a word.
-/

namespace RelSchema.Text

/-- The pieces between the separators, in order; always at least one. -/
def segments (sep : Char → Bool) : List Char → List (List Char)
  | [] => [[]]
  | c :: rest =>
    if sep c then [] :: segments sep rest
    else match segments sep rest with
      | [] => [[c]]
      | piece :: pieces => (c :: piece) :: pieces

/-- Exchanges the last place where `word` stands, if there is one. -/
def replaceLast? (word replacement : List Char) : List Char → Option (List Char)
  | [] => none
  | c :: rest =>
    match replaceLast? word replacement rest with
    | some changed => some (c :: changed)
    | none =>
      if word.isPrefixOf (c :: rest) then some (replacement ++ (c :: rest).drop word.length)
      else none

theorem segments_ne_nil (sep : Char → Bool) (cs : List Char) : segments sep cs ≠ [] := by
  cases cs with
  | nil => simp [segments]
  | cons c cs =>
    simp only [segments]
    split
    · simp
    · split <;> simp

end RelSchema.Text
