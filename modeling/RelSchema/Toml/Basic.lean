/-!
# TOML values

What a TOML 1.0 document holds. Floating-point numbers and dates are kept as they were written, as
nothing calculates with them.
-/

namespace RelSchema

inductive Toml where
  | string (s : String)
  | integer (n : Int)
  | float (text : String)
  | boolean (b : Bool)
  | dateTime (text : String)
  | array (elements : List Toml)
  | table (entries : List (String × Toml))
deriving Inhabited

namespace Toml

def string? : Toml → Option String
  | string s => some s
  | _ => none

def boolean? : Toml → Option Bool
  | boolean b => some b
  | _ => none

/-! ## Records and choices

A record is a table with an entry for each field, possibly among others, or the array of its fields
in declaration order; every field may be missing. A date has no fields. A choice is a string with
the name of an alternative, or a table whose only key is the name and holds nothing. -/

/-- How to find the fields of a value read as a record with these fields. -/
def fields? (names : List String) : Toml → Option (String → Option Toml)
  | table entries => some fun name => entries.lookup name
  | array elements => some fun name => (names.zip elements).lookup name
  | dateTime _ => some fun _ => none
  | _ => none

/-- One of the alternatives that `ofLabel?` knows. -/
def choice? {α : Type} (ofLabel? : String → Option α) : Toml → Option α
  | string label => ofLabel? label
  | table [(label, table [])] => ofLabel? label
  | table [(label, array [])] => ofLabel? label
  | _ => none

/-- A field with a value for when it is missing. -/
def orDefault {α : Type} (field : Option Toml) (decode : Toml → Option α) (value : α) : Option α :=
  match field with
  | none => some value
  | some t => decode t

end Toml

end RelSchema
