import RelSchema.Json.Basic
import RelSchema.Text.Digit

/-!
# Writing JSON

Two layouts: `compact` on one line without blanks, and `pretty` with one member or element to a
line, two blanks deeper at each level. In strings only the quote, the backslash and the characters
below the blank are escaped.
-/

namespace RelSchema

namespace Json

/-- A character as it stands in a string. -/
def escapeChar (c : Char) : List Char :=
  if c = '"' then ['\\', '"']
  else if c = '\\' then ['\\', '\\']
  else if c = '\n' then ['\\', 'n']
  else if c = '\r' then ['\\', 'r']
  else if c = '\t' then ['\\', 't']
  else if c.toNat = 8 then ['\\', 'b']
  else if c.toNat = 12 then ['\\', 'f']
  else if c.toNat < 32 then '\\' :: 'u' :: Text.fourHexDigits Text.lowerHexDigit c.toNat
  else [c]

/-- A string with its quotes. -/
def quote (s : String) : List Char := '"' :: (s.toList.flatMap escapeChar ++ ['"'])

/-- A number as it was written. -/
def Number.text (n : Number) : List Char :=
  (if n.negative then ['-'] else []) ++ (toString n.whole).toList ++
    (if n.fraction.isEmpty then [] else '.' :: n.fraction.map Nat.digitChar) ++
    match n.exponent with
    | some e => 'e' :: (toString e).toList
    | none => []

def boolText (b : Bool) : List Char := if b then "true".toList else "false".toList

mutual

/-- The value on one line. -/
def compact : Json → List Char
  | null => "null".toList
  | bool b => boolText b
  | number n => n.text
  | string s => quote s
  | array elements => '[' :: compactElements elements
  | object members => '{' :: compactMembers members
  | illFormed => "null".toList

/-- The elements of an array and its closing bracket. -/
def compactElements : List Json → List Char
  | [] => [']']
  | [element] => compact element ++ [']']
  | element :: next :: rest => compact element ++ ',' :: compactElements (next :: rest)

/-- The members of an object and its closing brace. -/
def compactMembers : List (String × Json) → List Char
  | [] => ['}']
  | [(key, value)] => quote key ++ ':' :: compact value ++ ['}']
  | (key, value) :: next :: rest =>
    quote key ++ ':' :: compact value ++ ',' :: compactMembers (next :: rest)

end

/-- A new line with the indentation of this depth. -/
def newLine (depth : Nat) : List Char := '\n' :: List.replicate (2 * depth) ' '

mutual

/-- The value in lines, standing at this depth. -/
def prettyAt (depth : Nat) : Json → List Char
  | null => "null".toList
  | bool b => boolText b
  | number n => n.text
  | string s => quote s
  | array [] => ['[', ']']
  | array (element :: rest) =>
    '[' :: newLine (depth + 1) ++ prettyAt (depth + 1) element ++ prettyElements (depth + 1) rest ++
      newLine depth ++ [']']
  | object [] => ['{', '}']
  | object ((key, value) :: rest) =>
    '{' :: newLine (depth + 1) ++ quote key ++ ':' :: ' ' :: prettyAt (depth + 1) value ++
      prettyMembers (depth + 1) rest ++ newLine depth ++ ['}']
  | illFormed => "null".toList

/-- The elements after the first, each on a line of its own. -/
def prettyElements (depth : Nat) : List Json → List Char
  | [] => []
  | element :: rest =>
    ',' :: newLine depth ++ prettyAt depth element ++ prettyElements depth rest

/-- The members after the first, each on a line of its own. -/
def prettyMembers (depth : Nat) : List (String × Json) → List Char
  | [] => []
  | (key, value) :: rest =>
    ',' :: newLine depth ++ quote key ++ ':' :: ' ' :: prettyAt depth value ++
      prettyMembers depth rest

end

/-- The value in lines. -/
def pretty (j : Json) : String := String.ofList (prettyAt 0 j)

end Json

end RelSchema
