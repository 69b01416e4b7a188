import RelSchema.Toml.Basic
import RelSchema.Toml.Text

/-!
# Numbers, booleans and dates of TOML

Integers have 64 bits and floating-point numbers are doubles; a number that neither holds is refused,
except that a negative one below all doubles is let through. A date has to exist.
-/

namespace RelSchema

namespace Toml

/-! ## Digits -/

/-- The digits in front, where an underscore may stand before each; the underscores are left out. -/
def moreDigits (isDigit : Char → Bool) : List Char → List Char × List Char
  | [] => ([], [])
  | [c] => if isDigit c then ([c], []) else ([], [c])
  | c :: d :: rest =>
    if c = '_' then
      if isDigit d then
        let (digits, rest) := moreDigits isDigit rest
        (d :: digits, rest)
      else ([], c :: d :: rest)
    else if isDigit c then
      let (digits, rest) := moreDigits isDigit (d :: rest)
      (c :: digits, rest)
    else ([], c :: d :: rest)

/-- The digits in front, of which there has to be one; underscores may stand between digits. -/
def someDigits (isDigit : Char → Bool) : List Char → Option (List Char × List Char)
  | [] => none
  | c :: rest =>
    if isDigit c then
      let (digits, rest) := moreDigits isDigit rest
      some (c :: digits, rest)
    else none

/-- The digits of a decimal integer: a zero in front stands alone. -/
def wholeDigits : List Char → Option (List Char × List Char)
  | '0' :: rest => some (['0'], rest)
  | cs => someDigits Char.isDigit cs

/-- Whether a minus sign stands in front, and what stands behind the sign if there is one. -/
def splitSign : List Char → Bool × List Char
  | '-' :: rest => (true, rest)
  | '+' :: rest => (false, rest)
  | cs => (false, cs)

/-! ## Integers -/

def isInt64 (n : Int) : Bool :=
  decide (-(Nat.pow 2 63 : Int) ≤ n) && decide (n < (Nat.pow 2 63 : Int))

def decimalInteger (cs : List Char) : Option (Int × List Char) := do
  let (negative, unsigned) := splitSign cs
  let (digits, rest) ← wholeDigits unsigned
  let size : Int := Text.ofDigits 10 digits
  some (if negative then -size else size, rest)

def isOctalDigit (c : Char) : Bool := c.isDigit && c != '8' && c != '9'

def isBinaryDigit (c : Char) : Bool := c == '0' || c == '1'

/-- The digits of an integer in a base, behind what announces the base. -/
def basedInteger (base : Nat) (isDigit : Char → Bool) (cs : List Char) :
    Option (Int × List Char) :=
  (someDigits isDigit cs).map fun (digits, rest) => ((Text.ofDigits base digits : Int), rest)

/-- An integer in any notation. -/
def integerText (cs : List Char) : Option (Int × List Char) := do
  let (n, rest) ← match cs with
    | '0' :: 'x' :: rest => basedInteger 16 Text.isHexDigit rest
    | '0' :: 'o' :: rest => basedInteger 8 isOctalDigit rest
    | '0' :: 'b' :: rest => basedInteger 2 isBinaryDigit rest
    | cs => decimalInteger cs
  if isInt64 n then some (n, rest) else none

/-! ## Floating-point numbers -/

/-- Half a step above the largest double: what is not below becomes infinite. -/
def doubleBound : Nat := Nat.pow 2 1024 - Nat.pow 2 970

/-- Whether `digits · 10 ^ exponent` is too large for a double. With its leading digit at place 309
it is compared exactly; otherwise the place decides. -/
def isInfinite (digits : Nat) (exponent : Int) : Bool :=
  if digits = 0 then false
  else
    let place := (Nat.toDigits 10 digits).length + exponent
    if place < 309 then false
    else if 309 < place then true
    else if 0 ≤ exponent then decide (doubleBound ≤ digits * Nat.pow 10 exponent.toNat)
    else decide (doubleBound * Nat.pow 10 (-exponent).toNat ≤ digits)

/-- The digits behind a point, if one stands here. -/
def fractionDigits : List Char → Option (List Char × List Char)
  | '.' :: rest => someDigits Char.isDigit rest
  | _ => none

/-- The number behind the letter of an exponent, if one stands here. -/
def exponentNumber : List Char → Option (Int × List Char)
  | [] => none
  | c :: rest =>
    if c = 'e' ∨ c = 'E' then do
      let (negative, unsigned) := splitSign rest
      let (digits, rest) ← someDigits Char.isDigit unsigned
      let size : Int := Text.ofDigits 10 digits
      some (if negative then -size else size, rest)
    else none

/-- The rest behind a number with a fraction, an exponent or both. -/
def decimalFloat? (cs : List Char) : Option (List Char) := do
  let (negative, unsigned) := splitSign cs
  let (whole, rest) ← wholeDigits unsigned
  let (fraction, exponent, rest) ← match fractionDigits rest with
    | some (fraction, rest) =>
      match exponentNumber rest with
      | some (exponent, rest) => some (fraction, exponent, rest)
      | none => some (fraction, 0, rest)
    | none => (exponentNumber rest).map fun (exponent, rest) => ([], exponent, rest)
  if !negative && isInfinite (Text.ofDigits 10 (whole ++ fraction)) (exponent - fraction.length) then
    none
  else some rest

/-- The rest behind a floating-point number. -/
def float? (cs : List Char) : Option (List Char) :=
  match decimalFloat? cs with
  | some rest => some rest
  | none =>
    match (splitSign cs).2 with
    | 'i' :: 'n' :: 'f' :: rest => some rest
    | 'n' :: 'a' :: 'n' :: rest => some rest
    | _ => none

/-! ## Dates and times -/

/-- Exactly this many digits, for a number within bounds. -/
def fixedDigits (count low high : Nat) (cs : List Char) : Option (Nat × List Char) :=
  let digits := cs.take count
  let n := Text.ofDigits 10 digits
  if digits.length = count && digits.all Char.isDigit && decide (low ≤ n) && decide (n ≤ high) then
    some (n, cs.drop count)
  else none

/-- The rest behind this character. -/
def expect? (c : Char) : List Char → Option (List Char)
  | d :: rest => if d = c then some rest else none
  | [] => none

def isLeapYear (year : Nat) : Bool := year % 4 == 0 && (year % 100 != 0 || year % 400 == 0)

def daysInMonth (year month : Nat) : Nat :=
  if month = 2 then if isLeapYear year then 29 else 28
  else if month ∈ [4, 6, 9, 11] then 30
  else 31

/-- The rest behind a date. -/
def date? (cs : List Char) : Option (List Char) := do
  let (year, rest) ← fixedDigits 4 0 9999 cs
  let (month, rest) ← fixedDigits 2 1 12 (← expect? '-' rest)
  let (_, rest) ← fixedDigits 2 1 (daysInMonth year month) (← expect? '-' rest)
  some rest

/-- The rest behind a time of day, whose seconds may have a fraction. -/
def time? (cs : List Char) : Option (List Char) := do
  let (_, rest) ← fixedDigits 2 0 23 cs
  let (_, rest) ← fixedDigits 2 0 59 (← expect? ':' rest)
  let (_, rest) ← fixedDigits 2 0 60 (← expect? ':' rest)
  match rest with
  | '.' :: d :: more => some (if d.isDigit then more.dropWhile Char.isDigit else rest)
  | _ => some rest

/-- The rest behind the distance to universal time, if one stands here. -/
def skipOffset (cs : List Char) : List Char :=
  match cs with
  | [] => []
  | c :: rest =>
    if c = 'Z' ∨ c = 'z' then rest
    else if c = '+' ∨ c = '-' then
      ((fixedDigits 2 0 23 rest).bind fun (_, rest) =>
        (expect? ':' rest).bind fun rest => (fixedDigits 2 0 59 rest).map (·.2)).getD cs
    else cs

/-- The rest behind a date, a time, or both. -/
def dateTime? (cs : List Char) : Option (List Char) :=
  match date? cs with
  | none => time? cs
  | some [] => some []
  | some (c :: rest) =>
    if c = 'T' ∨ c = 't' ∨ c = ' ' then
      match time? rest with
      | some rest => some (skipOffset rest)
      | none => some (c :: rest)
    else some (c :: rest)

/-! ## Scalars -/

/-- What was read when `rest` is left of `cs`. -/
def textBefore (rest cs : List Char) : String := String.ofList (cs.take (cs.length - rest.length))

/-- A number, boolean, date or time. -/
def scalar (cs : List Char) : Option (Toml × List Char) :=
  match cs with
  | 't' :: 'r' :: 'u' :: 'e' :: rest => some (.boolean true, rest)
  | 'f' :: 'a' :: 'l' :: 's' :: 'e' :: rest => some (.boolean false, rest)
  | cs =>
    match dateTime? cs with
    | some rest => some (.dateTime (textBefore rest cs), rest)
    | none =>
      match float? cs with
      | some rest => some (.float (textBefore rest cs), rest)
      | none => (integerText cs).map fun (n, rest) => (.integer n, rest)

end Toml

end RelSchema
