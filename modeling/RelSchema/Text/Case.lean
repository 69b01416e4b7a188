import RelSchema.Text.CaseTable

/-!
# Letter case

Lower-casing a whole text and upper-casing one character, by the full Unicode mappings: some
characters have an upper case of several characters, and a capital sigma at the end of a word
becomes the final form. On ASCII both agree with `Char.toLower` and `Char.toUpper`.
-/

namespace RelSchema.Text

/-- The character that the first run covering `c` maps it to; `c` itself when none does. -/
def shiftBy (runs : List CaseRun) (c : Char) : Char :=
  match runs.find? (·.covers c.toNat) with
  | some run => Char.ofNat (c.toNat + run.shift).toNat
  | none => c

def inRanges (ranges : List (Nat × Nat)) (c : Char) : Bool :=
  ranges.any fun r => decide (r.1 ≤ c.toNat) && decide (c.toNat ≤ r.2)

/-- The property `Cased`: letters that have a case, in either form. -/
def isCased (c : Char) : Bool := inRanges casedRanges c

/-- The property `Case_Ignorable`: characters that are looked through to find a word's end. -/
def isCaseIgnorable (c : Char) : Bool := inRanges caseIgnorableRanges c

/-- The lower case of one character, regardless of its neighbours. -/
def lowerChar (c : Char) : List Char :=
  if c.toNat < 128 then [c.toLower]
  else if c = 'İ' then ['i', Char.ofNat 0x307]
  else [shiftBy lowerRuns c]

/-- The upper case of one character. -/
def upperChar (c : Char) : List Char :=
  if c.toNat < 128 then [c.toUpper]
  else match upperExpansions.lookup c.toNat with
    | some codes => codes.map Char.ofNat
    | none => [shiftBy upperRuns c]

/-- Whether the first character that is not looked through is a cased one. -/
def meetsCased (cs : List Char) : Bool := (cs.dropWhile isCaseIgnorable).head?.any isCased

/-- The form that a capital sigma takes between `before` (nearest character first) and `after`. -/
def lowerSigma (before after : List Char) : Char :=
  if meetsCased before && !meetsCased after then 'ς' else 'σ'

/-- Lower-cases a text of which `before` has already been read, nearest character first. -/
def lowerFrom (before : List Char) : List Char → List Char
  | [] => []
  | c :: rest =>
    (if c = 'Σ' then [lowerSigma before rest] else lowerChar c) ++ lowerFrom (c :: before) rest

def lowerChars (cs : List Char) : List Char := lowerFrom [] cs

/-- The text in lower case. -/
def lower (s : String) : String := String.ofList (lowerChars s.toList)

/-- Upper-cases the first character and keeps the rest. -/
def capitalize : List Char → List Char
  | [] => []
  | c :: rest => upperChar c ++ rest

theorem upperChar_ascii {c : Char} (h : c.toNat < 128) : upperChar c = [c.toUpper] := by
  simp [upperChar, h]

theorem lowerChar_ascii {c : Char} (h : c.toNat < 128) : lowerChar c = [c.toLower] := by
  simp [lowerChar, h]

example : lower "ΟΔΟΣ ΣΑΣ É" = "οδος σας é" := by decide +kernel

example : capitalize ['ß', 'a'] = ['S', 'S', 'a'] := by decide +kernel

end RelSchema.Text
