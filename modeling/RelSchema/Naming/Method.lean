import RelSchema.Text.Case
import RelSchema.Text.Split

/-!
# Naming methods

How the external name of a column, the one generated code uses, is derived from the column's name.
-/

namespace RelSchema

/-- How external names are derived from column names. -/
inductive NamingMethod where
  /-- Cuts at underscores and writes each piece in lower case with a capital: `author_id` becomes
  `AuthorId`. -/
  | underscore
  /-- Keeps ASCII letters and digits, and writes each run of them in lower case with a capital:
  `author-ID` becomes `AuthorId`. -/
  | clean
  /-- Keeps ASCII letters and digits, and capitalizes each run of them: `author-ID` becomes
  `AuthorID`. -/
  | capitalized
  /-- Uses the name as it is. -/
  | unchanged
deriving DecidableEq, Repr, Inhabited

namespace NamingMethod

def all : List NamingMethod := [underscore, clean, capitalized, unchanged]

/-- The word for the method in configurations and reports. -/
def label : NamingMethod → String
  | underscore => "underscore"
  | clean => "clean"
  | capitalized => "phpname"
  | unchanged => "nochange"

def ofLabel? (s : String) : Option NamingMethod := all.find? (·.label == s)

/-- Whether a character separates words: all but the ASCII letters and digits do. -/
def isSeparator (c : Char) : Bool := !c.isAlphanum

/-- The derived name, on lists of characters. -/
def applyChars (name : List Char) : NamingMethod → List Char
  | underscore =>
    (Text.segments (· == '_') name).flatMap fun piece => Text.capitalize (Text.lowerChars piece)
  | clean =>
    (Text.segments isSeparator name).flatMap fun piece => Text.capitalize (Text.lowerChars piece)
  | capitalized => (Text.segments isSeparator name).flatMap Text.capitalize
  | unchanged => name

/-- The external name that the method derives from a name. -/
def apply (method : NamingMethod) (name : String) : String :=
  String.ofList (applyChars name.toList method)

example : underscore.apply "BOOK_TITLE" = "BookTitle" := by decide +kernel
example : clean.apply "author-ID" = "AuthorId" := by decide +kernel
example : capitalized.apply "author-ID" = "AuthorID" := by decide +kernel

end NamingMethod

end RelSchema
