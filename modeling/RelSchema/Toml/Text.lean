import RelSchema.Text.Digit

/-!
# Characters, comments and strings of TOML

Reading functions take the characters that are left and return what they read with the rest.
-/

namespace RelSchema

namespace Toml

/-! ## Characters -/

def isBlank (c : Char) : Bool := c == ' ' || c == '\t'

/-- Characters that are not control characters; the tab is not counted as one. -/
def isPrintable (c : Char) : Bool :=
  c == '\t' || (decide (32 ≤ c.toNat) && c.toNat != 127)

/-- What a string in double quotes holds without an escape. -/
def isBasicChar (c : Char) : Bool := isPrintable c && c != '"' && c != '\\'

/-- What a string in single quotes holds. -/
def isLiteralChar (c : Char) : Bool := isPrintable c && c != '\''

def isBareKeyChar (c : Char) : Bool := c.isAlphanum || c == '-' || c == '_'

/-! ## Blanks, comments and line ends -/

def skipBlanks (cs : List Char) : List Char := cs.dropWhile isBlank

/-- The rest behind a line end. -/
def newline? : List Char → Option (List Char)
  | '\n' :: rest => some rest
  | '\r' :: '\n' :: rest => some rest
  | _ => none

/-- The rest behind a comment, if one starts here. -/
def skipComment : List Char → List Char
  | '#' :: rest => rest.dropWhile isPrintable
  | cs => cs

/-- The rest of the text behind this line, which may hold blanks and a comment only. -/
def lineEnd? (cs : List Char) : Option (List Char) :=
  match skipComment (skipBlanks cs) with
  | [] => some []
  | cs => newline? cs

/-- The rest behind blanks, comments and line ends. -/
def skipTrivia (inComment : Bool) : List Char → List Char
  | [] => []
  | '\n' :: rest => skipTrivia false rest
  | '\r' :: '\n' :: rest => skipTrivia false rest
  | c :: rest =>
    if inComment then if isPrintable c then skipTrivia true rest else c :: rest
    else if isBlank c then skipTrivia false rest
    else if c = '#' then skipTrivia true rest
    else c :: rest

/-! ## Strings -/

/-- The character that a backslash and this character stand for. -/
def escaped? (c : Char) : Option Char :=
  if c = '"' ∨ c = '\\' then some c
  else if c = 'b' then some (Char.ofNat 8)
  else if c = 'f' then some (Char.ofNat 12)
  else if c = 'n' then some '\n'
  else if c = 'r' then some '\r'
  else if c = 't' then some '\t'
  else none

/-- The character with a code in hexadecimal digits, if there is one. -/
def codeChar? (digits : List Char) : Option Char :=
  let code := Text.ofDigits 16 digits
  if digits.all Text.isHexDigit && (decide (code < 0xD800) || decide (0xE000 ≤ code)) &&
      decide (code < 0x110000) then
    some (Char.ofNat code)
  else none

/-- A character in front of what was read further on. -/
def consChar (c : Option Char) (more : Option (List Char × List Char)) :
    Option (List Char × List Char) :=
  match c, more with
  | some c, some (cs, rest) => some (c :: cs, rest)
  | _, _ => none

/-- A string in double quotes, behind the opening quote. -/
def basicBody : List Char → Option (List Char × List Char)
  | [] => none
  | '"' :: rest => some ([], rest)
  | '\\' :: 'u' :: a :: b :: c :: d :: rest => consChar (codeChar? [a, b, c, d]) (basicBody rest)
  | '\\' :: 'U' :: a :: b :: c :: d :: e :: f :: g :: h :: rest =>
    consChar (codeChar? [a, b, c, d, e, f, g, h]) (basicBody rest)
  | '\\' :: c :: rest => consChar (escaped? c) (basicBody rest)
  | c :: rest => if isBasicChar c then consChar (some c) (basicBody rest) else none

/-- A string in single quotes, behind the opening quote. -/
def literalBody : List Char → Option (List Char × List Char)
  | [] => none
  | '\'' :: rest => some ([], rest)
  | c :: rest => if isLiteralChar c then consChar (some c) (literalBody rest) else none

/-- What a run of three or more quotes leaves in the string: up to two quotes before the closing
three. -/
def closing (quote : Char) : List Char → List Char × List Char
  | a :: b :: rest =>
    if a = quote then if b = quote then ([a, b], rest) else ([a], b :: rest) else ([], a :: b :: rest)
  | [a] => if a = quote then ([a], []) else ([], [a])
  | [] => ([], [])

/-- Whether only blanks stand before the next line end. -/
def isLineTail (cs : List Char) : Bool := (newline? (skipBlanks cs)).isSome

/-- A string in three double quotes, behind the opening ones. Behind a backslash at the end of a
line, blanks and line ends are skipped. -/
def multilineBasicBody (skipping : Bool) : List Char → Option (List Char × List Char)
  | [] => none
  | '"' :: '"' :: '"' :: rest => some (closing '"' rest)
  | '\n' :: rest =>
    if skipping then multilineBasicBody true rest
    else consChar (some '\n') (multilineBasicBody false rest)
  | '\r' :: '\n' :: rest =>
    if skipping then multilineBasicBody true rest
    else consChar (some '\n') (multilineBasicBody false rest)
  | '\\' :: 'u' :: a :: b :: c :: d :: rest =>
    consChar (codeChar? [a, b, c, d]) (multilineBasicBody false rest)
  | '\\' :: 'U' :: a :: b :: c :: d :: e :: f :: g :: h :: rest =>
    consChar (codeChar? [a, b, c, d, e, f, g, h]) (multilineBasicBody false rest)
  | '\\' :: c :: rest =>
    if isLineTail (c :: rest) then multilineBasicBody true (c :: rest)
    else consChar (escaped? c) (multilineBasicBody false rest)
  | c :: rest =>
    if skipping && isBlank c then multilineBasicBody true rest
    else if c = '"' || isBasicChar c then consChar (some c) (multilineBasicBody false rest)
    else none

/-- A string in three single quotes, behind the opening ones. -/
def multilineLiteralBody : List Char → Option (List Char × List Char)
  | [] => none
  | '\'' :: '\'' :: '\'' :: rest => some (closing '\'' rest)
  | '\n' :: rest => consChar (some '\n') (multilineLiteralBody rest)
  | '\r' :: '\n' :: rest => consChar (some '\n') (multilineLiteralBody rest)
  | c :: rest => if isPrintable c then consChar (some c) (multilineLiteralBody rest) else none

/-- The rest behind a line end that follows the opening quotes. -/
def trimFirstNewline (cs : List Char) : List Char := (newline? cs).getD cs

/-- A string of any form. -/
def stringText : List Char → Option (List Char × List Char)
  | '"' :: '"' :: '"' :: rest => multilineBasicBody false (trimFirstNewline rest)
  | '"' :: rest => basicBody rest
  | '\'' :: '\'' :: '\'' :: rest => multilineLiteralBody (trimFirstNewline rest)
  | '\'' :: rest => literalBody rest
  | _ => none

/-! ## Keys -/

/-- One part of a key: a bare word or a string on one line. -/
def simpleKey : List Char → Option (String × List Char)
  | '"' :: rest => (basicBody rest).map fun (cs, rest) => (String.ofList cs, rest)
  | '\'' :: rest => (literalBody rest).map fun (cs, rest) => (String.ofList cs, rest)
  | cs =>
    match cs.span isBareKeyChar with
    | ([], _) => none
    | (word, rest) => some (String.ofList word, rest)

/-- A key of at most this many parts, separated by dots. -/
def dottedKey : Nat → List Char → Option (List String × List Char)
  | 0, _ => none
  | parts + 1, cs =>
    match simpleKey (skipBlanks cs) with
    | none => none
    | some (word, rest) =>
      match skipBlanks rest with
      | '.' :: rest => (dottedKey parts rest).map fun (words, rest) => (word :: words, rest)
      | rest => some ([word], rest)

/-- How deep values may nest, and how many parts a key may have. -/
def maxDepth : Nat := 79

def key (cs : List Char) : Option (List String × List Char) := dottedKey maxDepth cs

end Toml

end RelSchema
