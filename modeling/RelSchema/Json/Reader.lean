import RelSchema.Json.Basic
import RelSchema.Text.Digit

/-!
# Reading JSON

A reader for standard JSON texts. Each function takes the characters that are left and returns what
it read with the rest. Values nest, so reading one is bounded by a number of steps; `parse?` allows
two for each character of the text, which is always enough.
-/

namespace RelSchema

namespace Json

def isBlank (c : Char) : Bool := c == ' ' || c == '\n' || c == '\t' || c == '\r'

def skipBlanks (cs : List Char) : List Char := cs.dropWhile isBlank

/-! ## Strings -/

/-- The character that a backslash and this character stand for. -/
def escaped? (c : Char) : Option Nat :=
  if c = '"' ∨ c = '\\' ∨ c = '/' then some c.toNat
  else if c = 'b' then some 8
  else if c = 'f' then some 12
  else if c = 'n' then some 10
  else if c = 'r' then some 13
  else if c = 't' then some 9
  else none

/-- The codes up to the closing quote. An escaped code may be half of a surrogate pair. -/
def stringCodes : List Char → Option (List Nat × List Char)
  | '"' :: rest => some ([], rest)
  | '\\' :: 'u' :: a :: b :: c :: d :: rest =>
    if [a, b, c, d].all Text.isHexDigit then
      (stringCodes rest).map fun (codes, rest) => (Text.ofDigits 16 [a, b, c, d] :: codes, rest)
    else none
  | '\\' :: c :: rest =>
    match escaped? c with
    | some code => (stringCodes rest).map fun (codes, rest) => (code :: codes, rest)
    | none => none
  | c :: rest =>
    if c.toNat < 32 then none
    else (stringCodes rest).map fun (codes, rest) => (c.toNat :: codes, rest)
  | [] => none

def isLeadingSurrogate (code : Nat) : Bool := decide (0xD800 ≤ code) && decide (code < 0xDC00)

def isTrailingSurrogate (code : Nat) : Bool := decide (0xDC00 ≤ code) && decide (code < 0xE000)

/-- The characters with these codes, where two surrogates in the right order make one character and
any other surrogate makes none. -/
def ofCodes? : List Nat → Option (List Char)
  | [] => some []
  | [code] =>
    if isLeadingSurrogate code || isTrailingSurrogate code then none else some [Char.ofNat code]
  | code :: next :: rest =>
    if isLeadingSurrogate code then
      if isTrailingSurrogate next then
        (ofCodes? rest).map (Char.ofNat (0x10000 + (code - 0xD800) * 0x400 + (next - 0xDC00)) :: ·)
      else none
    else if isTrailingSurrogate code then none
    else (ofCodes? (next :: rest)).map (Char.ofNat code :: ·)

/-- A string whose opening quote has been read; the text is missing if the string names none. -/
def stringText (cs : List Char) : Option (Option String × List Char) :=
  (stringCodes cs).map fun (codes, rest) => ((ofCodes? codes).map String.ofList, rest)

/-! ## Numbers -/

/-- The digits in front, of which there has to be one. -/
def someDigits (cs : List Char) : Option (List Char × List Char) :=
  match cs.span Char.isDigit with
  | ([], _) => none
  | digits => some digits

/-- The digits before the point: a zero stands alone. -/
def wholePart (cs : List Char) : Option (Nat × List Char) :=
  match someDigits cs with
  | none => none
  | some ('0' :: _ :: _, _) => none
  | some (digits, rest) => some (Text.ofDigits 10 digits, rest)

def fractionPart : List Char → Option (List Nat × List Char)
  | '.' :: rest =>
    (someDigits rest).map fun (digits, rest) => (digits.map fun d => Text.ofDigits 10 [d], rest)
  | cs => some ([], cs)

/-- The digits of an exponent behind its sign. -/
def signedExponent : List Char → Option (Int × List Char)
  | '-' :: rest => (someDigits rest).map fun (digits, rest) => (-(Text.ofDigits 10 digits : Int), rest)
  | '+' :: rest => (someDigits rest).map fun (digits, rest) => ((Text.ofDigits 10 digits : Int), rest)
  | cs => (someDigits cs).map fun (digits, rest) => ((Text.ofDigits 10 digits : Int), rest)

def exponentPart : List Char → Option (Option Int × List Char)
  | 'e' :: rest => (signedExponent rest).map fun (e, rest) => (some e, rest)
  | 'E' :: rest => (signedExponent rest).map fun (e, rest) => (some e, rest)
  | cs => some (none, cs)

def unsignedNumber (negative : Bool) (cs : List Char) : Option (Number × List Char) := do
  let (whole, rest) ← wholePart cs
  let (fraction, rest) ← fractionPart rest
  let (exponent, rest) ← exponentPart rest
  some ({ negative, whole, fraction, exponent }, rest)

def numberText : List Char → Option (Number × List Char)
  | '-' :: rest => unsignedNumber true rest
  | cs => unsignedNumber false cs

/-! ## Values -/

/-- The object with these members, if every key names a text. -/
def ofMembers (members : List (Option String × Json)) : Json :=
  match members.mapM fun (key, value) => key.map (·, value) with
  | some members => .object members
  | none => .illFormed

mutual

/-- A value, after blanks. -/
def value : Nat → List Char → Option (Json × List Char)
  | 0, _ => none
  | steps + 1, cs =>
    match skipBlanks cs with
    | 'n' :: 'u' :: 'l' :: 'l' :: rest => some (.null, rest)
    | 't' :: 'r' :: 'u' :: 'e' :: rest => some (.bool true, rest)
    | 'f' :: 'a' :: 'l' :: 's' :: 'e' :: rest => some (.bool false, rest)
    | '"' :: rest =>
      (stringText rest).map fun (text, rest) => (text.elim .illFormed .string, rest)
    | '[' :: rest =>
      match skipBlanks rest with
      | ']' :: rest => some (.array [], rest)
      | rest => (elements steps rest).map fun (elements, rest) => (.array elements, rest)
    | '{' :: rest =>
      match skipBlanks rest with
      | '}' :: rest => some (.object [], rest)
      | rest => (members steps rest).map fun (members, rest) => (ofMembers members, rest)
    | cs => (numberText cs).map fun (n, rest) => (.number n, rest)

/-- The elements of an array up to the closing bracket; at least one. -/
def elements : Nat → List Char → Option (List Json × List Char)
  | 0, _ => none
  | steps + 1, cs =>
    match value steps cs with
    | none => none
    | some (element, rest) =>
      match skipBlanks rest with
      | ']' :: rest => some ([element], rest)
      | ',' :: rest =>
        (elements steps rest).map fun (elements, rest) => (element :: elements, rest)
      | _ => none

/-- The members of an object up to the closing brace; at least one. -/
def members : Nat → List Char → Option (List (Option String × Json) × List Char)
  | 0, _ => none
  | steps + 1, cs =>
    match skipBlanks cs with
    | '"' :: rest =>
      match stringText rest with
      | none => none
      | some (key, rest) =>
        match skipBlanks rest with
        | ':' :: rest =>
          match value steps rest with
          | none => none
          | some (value, rest) =>
            match skipBlanks rest with
            | '}' :: rest => some ([(key, value)], rest)
            | ',' :: rest =>
              (members steps rest).map fun (members, rest) => ((key, value) :: members, rest)
            | _ => none
        | _ => none
    | _ => none

end

/-- The value that a text writes, if the text is JSON. -/
def parse? (text : String) : Option Json :=
  match value (2 * text.toList.length + 2) text.toList with
  | some (j, rest) => if (skipBlanks rest).isEmpty then some j else none
  | none => none

end Json

end RelSchema
