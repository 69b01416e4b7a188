import RelSchema.Toml.Values

/-!
# TOML documents

A document is a list of lines: headers, which say what table the following lines belong to, and
pairs of a key and a value. `parse?` reads a document as the table that it stands for.
-/

namespace RelSchema

namespace Toml

/-- A line that is not empty. -/
inductive Line where
  | pair (key : List String) (v : Toml)
  /-- A header in brackets. -/
  | table (path : List String)
  /-- A header in double brackets: a further table of an array. -/
  | tables (path : List String)

namespace Line

/-- A header behind its opening bracket or brackets. -/
def header? (cs : List Char) : Option (Line × List Char) :=
  match cs with
  | '[' :: cs =>
    match key cs with
    | some (path, ']' :: ']' :: rest) => (lineEnd? rest).map (tables path, ·)
    | _ => none
  | cs =>
    match key cs with
    | some (path, ']' :: rest) => (lineEnd? rest).map (table path, ·)
    | _ => none

/-- A key with its value, which is read in at most this many steps. -/
def pair? (steps : Nat) (cs : List Char) : Option (Line × List Char) :=
  match key cs with
  | some (key, '=' :: rest) =>
    match value steps maxDepth (skipBlanks rest) with
    | some (v, rest) => (lineEnd? rest).map (pair key v, ·)
    | none => none
  | _ => none

/-- All lines of a text of at most this many lines. -/
def readAll (steps : Nat) : Nat → List Char → Option (List Line)
  | 0, _ => none
  | lines + 1, cs =>
    match skipBlanks cs with
    | [] => some []
    | '[' :: cs =>
      match header? cs with
      | some (line, rest) => (readAll steps lines rest).map (line :: ·)
      | none => none
    | c :: cs =>
      if c = '#' ∨ c = '\n' ∨ c = '\r' then
        match lineEnd? (c :: cs) with
        | some rest => readAll steps lines rest
        | none => none
      else
        match pair? steps (c :: cs) with
        | some (line, rest) => (readAll steps lines rest).map (line :: ·)
        | none => none

end Line

/-- A document so far: all tables, and the path of the one that pairs are added to. -/
structure Progress where
  root : Draft := .explicit
  path : List String := []

/-- Takes in one more line. -/
def Progress.add (p : Progress) : Line → Option Progress
  | .pair key v => (p.root.descend false (·.addPair key v) p.path).map fun root => { p with root }
  | .table path => (p.root.openTable path).map fun root => { root, path }
  | .tables path => (p.root.appendTable path).map fun root => { root, path }

/-- The table that the lines make, if they agree. -/
def ofLines? (lines : List Line) : Option Toml :=
  (lines.foldlM Progress.add {}).map fun p => p.root.finish

/-- The mark that may open a text in Unicode. -/
def skipByteOrderMark : List Char → List Char
  | c :: rest => if c = Char.ofNat 0xFEFF then rest else c :: rest
  | [] => []

/-- The table that a text stands for, if the text is TOML. -/
def parse? (text : String) : Option Toml :=
  let cs := skipByteOrderMark text.toList
  (Line.readAll (2 * cs.length + 2) (cs.length + 1) cs).bind ofLines?

end Toml

end RelSchema
