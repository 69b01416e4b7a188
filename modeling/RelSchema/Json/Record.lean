import RelSchema.Json.Basic

/-!
# Records and choices in JSON

A record is an object with a member for each field, in any order and possibly among other members;
a field that occurs twice is an error. It may also be the array of its fields in declaration order.
A choice among named alternatives is a string with the name, or an object whose only member has that
name and the value null.
-/

namespace RelSchema

namespace Json

/-- A value read as a record. -/
structure Record where
  /-- Whether the fields are told apart by their position, not by their name. -/
  positional : Bool
  field? : String → Option Json

/-- Reads a value as a record with these fields. -/
def record? (fields : List String) : Json → Option Record
  | object members =>
    if fields.all fun name => members.countP (·.1 == name) ≤ 1 then
      some ⟨false, fun name => members.lookup name⟩
    else none
  | array elements =>
    if elements.length ≤ fields.length then
      some ⟨true, fun name => (fields.zip elements).lookup name⟩
    else none
  | _ => none

namespace Record

variable {α : Type}

/-- A field that has to be there. -/
def required (r : Record) (name : String) (decode : Json → Option α) : Option α :=
  (r.field? name).bind decode

/-- A field that may be missing by name, or null. -/
def optional (r : Record) (name : String) (decode : Json → Option α) : Option (Option α) :=
  match r.field? name with
  | none => if r.positional then none else some none
  | some null => some none
  | some j => (decode j).map some

/-- A field with a value for when it is missing. -/
def orDefault (r : Record) (name : String) (decode : Json → Option α) (value : α) : Option α :=
  match r.field? name with
  | none => some value
  | some j => decode j

end Record

/-- Null or a value. -/
def nullable? {α : Type} (decode : Json → Option α) : Json → Option (Option α)
  | null => some none
  | j => (decode j).map some

/-- One of the alternatives that `ofLabel?` knows. -/
def choice? {α : Type} (ofLabel? : String → Option α) : Json → Option α
  | string label => ofLabel? label
  | object [(label, null)] => ofLabel? label
  | _ => none

end Json

end RelSchema
