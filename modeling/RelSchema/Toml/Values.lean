import RelSchema.Toml.Draft
import RelSchema.Toml.Scalars

/-!
# Values of TOML

Values nest to a fixed depth. Reading one is also bounded by a number of steps, of which two for
each character are enough.
-/

namespace RelSchema

namespace Toml

/-- The table that these pairs make, if they agree. -/
def ofPairs? (pairs : List (List String × Toml)) : Option Toml :=
  (pairs.foldlM (fun (d : Draft) (pair : List String × Toml) => d.addPair pair.1 pair.2)
    Draft.explicit).map Draft.finish

mutual

/-- A value that arrays and tables may nest in to this depth. -/
def value : Nat → Nat → List Char → Option (Toml × List Char)
  | 0, _, _ => none
  | steps + 1, depth, cs =>
    match cs with
    | '"' :: _ => (stringText cs).map fun (text, rest) => (.string (String.ofList text), rest)
    | '\'' :: _ => (stringText cs).map fun (text, rest) => (.string (String.ofList text), rest)
    | '[' :: rest =>
      match depth with
      | 0 => none
      | depth + 1 =>
        (elements steps depth (skipTrivia false rest)).map fun (elements, rest) =>
          (.array elements, rest)
    | '{' :: rest =>
      match depth with
      | 0 => none
      | depth + 1 =>
        match skipBlanks rest with
        | '}' :: rest => some (.table [], rest)
        | rest =>
          match pairs steps depth rest with
          | none => none
          | some (pairs, rest) => (ofPairs? pairs).map fun t => (t, rest)
    | cs => scalar cs

/-- The elements of an array up to the closing bracket; a comma may follow the last one. -/
def elements : Nat → Nat → List Char → Option (List Toml × List Char)
  | 0, _, _ => none
  | steps + 1, depth, cs =>
    match cs with
    | ']' :: rest => some ([], rest)
    | cs =>
      match value steps depth cs with
      | none => none
      | some (element, rest) =>
        match skipTrivia false rest with
        | ']' :: rest => some ([element], rest)
        | ',' :: rest =>
          (elements steps depth (skipTrivia false rest)).map fun (elements, rest) =>
            (element :: elements, rest)
        | _ => none

/-- The pairs of a table on one line up to the closing brace; at least one. -/
def pairs : Nat → Nat → List Char → Option (List (List String × Toml) × List Char)
  | 0, _, _ => none
  | steps + 1, depth, cs =>
    match key cs with
    | some (key, '=' :: rest) =>
      match value steps depth (skipBlanks rest) with
      | none => none
      | some (v, rest) =>
        match skipBlanks rest with
        | '}' :: rest => some ([(key, v)], rest)
        | ',' :: rest =>
          (pairs steps depth rest).map fun (pairs, rest) => ((key, v) :: pairs, rest)
        | _ => none
    | _ => none

end

end Toml

end RelSchema
