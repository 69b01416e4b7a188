import RelSchema.Toml.Text

/-!
# Writing TOML strings

A string is written in the plainest form that holds it: in double quotes where nothing needs an
escape, else in single quotes, else in three of either, and only otherwise with escapes.
-/

namespace RelSchema

namespace Toml

/-- The four forms of a string. -/
inductive Quoting where
  | basic
  | literal
  | multilineBasic
  | multilineLiteral
deriving DecidableEq, Repr

/-- Whether this character stands three times in a row. -/
def hasTriple (c : Char) : List Char → Bool
  | x :: y :: z :: rest => (x == c && y == c && z == c) || hasTriple c (y :: z :: rest)
  | _ => false

/-- Characters that stand for themselves in no form but the line end, which needs three quotes. -/
def isControl (c : Char) : Bool := !isPrintable c && c != '\n'

def Quoting.choose (cs : List Char) : Quoting :=
  if cs.any isControl then if cs.contains '\n' then multilineBasic else basic
  else if !cs.contains '\\' && !cs.contains '"' && !cs.contains '\n' then basic
  else if !cs.contains '\'' && !cs.contains '\n' then literal
  else if !cs.contains '\\' && !hasTriple '"' cs then multilineBasic
  else if !hasTriple '\'' cs then multilineLiteral
  else if cs.contains '\n' then multilineBasic
  else basic

/-- A character between double quotes, other than a quote or a line end. -/
def escapeChar (c : Char) : List Char :=
  if c = '\\' then ['\\', '\\']
  else if c = '\t' then ['\\', 't']
  else if c = '\r' then ['\\', 'r']
  else if c.toNat = 8 then ['\\', 'b']
  else if c.toNat = 12 then ['\\', 'f']
  else if isControl c then '\\' :: 'u' :: Text.fourHexDigits Text.upperHexDigit c.toNat
  else [c]

/-- A character of a string in double quotes. -/
def basicChar (c : Char) : List Char :=
  if c = '"' then ['\\', '"'] else if c = '\n' then ['\\', 'n'] else escapeChar c

/-- The text of a string in three double quotes, behind so many quotes in a row: every third one
is escaped. -/
def multilineText (quotes : Nat) : List Char → List Char
  | [] => []
  | c :: rest =>
    if c = '"' then
      if quotes = 2 then '\\' :: '"' :: multilineText 0 rest else '"' :: multilineText (quotes + 1) rest
    else if c = '\n' then '\n' :: multilineText 0 rest
    else escapeChar c ++ multilineText 0 rest

/-- The line end behind three opening quotes, which keeps a line end of the text apart from them. -/
def openingNewline (cs : List Char) : List Char := if cs.contains '\n' then ['\n'] else []

/-- A string with its quotes. -/
def quote (cs : List Char) : List Char :=
  match Quoting.choose cs with
  | .basic => '"' :: (cs.flatMap basicChar ++ ['"'])
  | .literal => '\'' :: (cs ++ ['\''])
  | .multilineBasic =>
    '"' :: '"' :: '"' :: (openingNewline cs ++ (multilineText 0 cs ++ ['"', '"', '"']))
  | .multilineLiteral =>
    '\'' :: '\'' :: '\'' :: (openingNewline cs ++ (cs ++ ['\'', '\'', '\'']))

/-- A line that gives a key a value in its written form. -/
def pairLine (key : String) (valueText : List Char) : List Char :=
  key.toList ++ " = ".toList ++ valueText ++ ['\n']

/-- A header line. -/
def headerLine (name : String) : List Char := '[' :: (name.toList ++ [']', '\n'])

def booleanText (b : Bool) : List Char := if b then "true".toList else "false".toList

example : String.ofList (quote "it's".toList) = "\"it's\"" := by decide +kernel
example : String.ofList (quote "say \"hi\"".toList) = "'say \"hi\"'" := by decide +kernel
example : String.ofList (quote "\t\x7f".toList) = "\"\\t\\u007F\"" := by decide +kernel
example : String.ofList (quote "two\nlines".toList) = "\"\"\"\ntwo\nlines\"\"\"" := by decide +kernel

end Toml

end RelSchema
