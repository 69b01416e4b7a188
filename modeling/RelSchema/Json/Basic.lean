/-!
# JSON values

A JSON text as a value. Members of an object stay in the order and number in which they were
written; a number stays as it was written, so that reading it in one way or another is a decision of
whoever asks. A text can be well-formed and still hold a string that names no Unicode text, through
an unpaired surrogate; such a string, or an object with such a key, reads as `illFormed`.
-/

namespace RelSchema

namespace Json

/-- A number as it is written: sign, digits before and after the point, exponent. -/
structure Number where
  negative : Bool := false
  whole : Nat
  /-- The digits after the point; there is no point when there are none. -/
  fraction : List Nat := []
  exponent : Option Int := none
deriving DecidableEq, Repr, Inhabited

namespace Number

def ofNat (n : Nat) : Number := { whole := n }

/-- Whether the number has neither a point nor an exponent. -/
def isInteger (n : Number) : Bool := n.fraction.isEmpty && n.exponent.isNone

/-- The number, when it is written as an integer without a sign. -/
def toNat? (n : Number) : Option Nat :=
  if n.isInteger && !n.negative then some n.whole else none

end Number

end Json

inductive Json where
  | null
  | bool (b : Bool)
  | number (n : Json.Number)
  | string (s : String)
  | array (elements : List Json)
  | object (members : List (String × Json))
  /-- A string that names no text, or an object with a key that names none. -/
  | illFormed
deriving Inhabited

namespace Json

def ofNat (n : Nat) : Json := .number (.ofNat n)

/-- A list of texts. -/
def ofStrings (texts : List String) : Json := .array (texts.map .string)

/-- A value that may be absent, which is written as null. -/
def ofOption {α : Type} (encode : α → Json) : Option α → Json
  | some a => encode a
  | none => .null

/-- The member with this key; of several the last one counts. -/
def member? (key : String) : Json → Option Json
  | .object members => (members.findRev? (·.1 == key)).map (·.2)
  | _ => none

def string? : Json → Option String
  | .string s => some s
  | _ => none

def bool? : Json → Option Bool
  | .bool b => some b
  | _ => none

def array? : Json → Option (List Json)
  | .array elements => some elements
  | _ => none

/-- An integer below `2 ^ bits`, written as one. -/
def nat? (bits : Nat) : Json → Option Nat
  | .number n => n.toNat?.bind fun v => if v < Nat.pow 2 bits then some v else none
  | _ => none

/-- An array whose elements all decode. -/
def list? {α : Type} (decode : Json → Option α) : Json → Option (List α)
  | .array elements => elements.mapM decode
  | _ => none

end Json

end RelSchema
