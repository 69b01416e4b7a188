import RelSchema.Json.Double
import RelSchema.KeyMap

/-!
# Free-form values

A value that is kept for its own sake, such as the metadata of a report, is brought into one form:
the members of an object are sorted by key, a repeated key keeps its last value, and numbers are
kept as `Number.kept?` says. Values nested too deeply, numbers too large and strings that name no
text are refused.
-/

namespace RelSchema

namespace Json

mutual

/-- The one form of a value that may nest this deep. -/
def free? (depth : Nat) : Json → Option Json
  | null => some null
  | bool b => some (bool b)
  | number n => n.kept?.map number
  | string s => some (string s)
  | array elements => if depth = 0 then none else (freeElements? (depth - 1) elements).map array
  | object members =>
    if depth = 0 then none
    else (freeMembers? (depth - 1) members).map fun ms => object (KeyMap.ofList ms).entries
  | illFormed => none

def freeElements? (depth : Nat) : List Json → Option (List Json)
  | [] => some []
  | element :: rest =>
    match free? depth element, freeElements? depth rest with
    | some element, some rest => some (element :: rest)
    | _, _ => none

def freeMembers? (depth : Nat) : List (String × Json) → Option (List (String × Json))
  | [] => some []
  | (key, value) :: rest =>
    match free? depth value, freeMembers? depth rest with
    | some value, some rest => some ((key, value) :: rest)
    | _, _ => none

end

/-- How deep the arrays and objects of a text may nest. -/
def maxDepth : Nat := 127

end Json

end RelSchema
