import RelSchema.SchemaJson
import RelSchema.Toml.Document
import RelSchema.Toml.Quoted

/-!
# Configurations

A configuration says what platform a schema is for and how it is resolved. It is kept as a TOML file
in which every setting may be missing. `Config.parse` reads such a file and `Config.render` writes it.
-/

namespace RelSchema

structure Config where
  platform : Platform := .generic
  /-- Whether a dangling foreign key is an error. -/
  strictReferences : Bool := false
  /-- The key of the naming strategy. -/
  namingStrategy : String := "default"
  /-- The schema of tables that name none. -/
  defaultSchema : Option String := none
  defaults : Defaults := {}
deriving DecidableEq, Repr, Inhabited

/-- Why a file cannot be read or written. -/
inductive FileError where
  | notFound
  | isDirectory
  | notUnicode
deriving DecidableEq, Repr

def FileError.message : FileError → String
  | notFound => "No such file or directory (os error 2)"
  | isDirectory => "Is a directory (os error 21)"
  | notUnicode => "stream did not contain valid UTF-8"

/-- Why there is no configuration, or no resolver for it. -/
inductive ConfigError where
  | file (cause : FileError)
  /-- The text is not TOML, or a setting has no valid value. -/
  | parse
  | unknownNamingStrategy (name : String) (available : List String)
deriving DecidableEq, Repr

def ConfigError.message : ConfigError → String
  | file cause => "IO error: " ++ cause.message
  | parse => "Parse error"
  | unknownNamingStrategy name available =>
    "Unknown naming strategy '" ++ name ++ "' (available: " ++ ", ".intercalate available ++ ")"

/-! ## Reading -/

/-- Missing fields have their standard values. -/
def Defaults.ofToml? (t : Toml) : Option Defaults := do
  let field ← t.fields? ["id_method", "naming_method", "string_format", "heavy_indexing"]
  some {
    idMethod := ← Toml.orDefault (field "id_method") (Toml.choice? IdMethod.ofLabel?) .native
    namingMethod :=
      ← Toml.orDefault (field "naming_method") (Toml.choice? NamingMethod.ofLabel?) .underscore
    stringFormat :=
      ← Toml.orDefault (field "string_format") (Toml.choice? StringFormat.ofLabel?) .yaml
    heavyIndexing := ← Toml.orDefault (field "heavy_indexing") Toml.boolean? false }

namespace Config

/-- Missing settings have their standard values; entries that are no settings are ignored. -/
def ofToml? (t : Toml) : Option Config := do
  let field ← t.fields?
    ["platform", "strict_references", "naming_strategy", "default_schema", "defaults"]
  some {
    platform := ← Toml.orDefault (field "platform") (Toml.choice? Platform.ofLabel?) .generic
    strictReferences := ← Toml.orDefault (field "strict_references") Toml.boolean? false
    namingStrategy := ← Toml.orDefault (field "naming_strategy") Toml.string? "default"
    defaultSchema := ← Toml.orDefault (field "default_schema") (fun t => t.string?.map some) none
    defaults := ← Toml.orDefault (field "defaults") Defaults.ofToml? {} }

/-- The configuration that a text holds. -/
def parse (text : String) : Except ConfigError Config :=
  match (Toml.parse? text).bind ofToml? with
  | some c => .ok c
  | none => .error .parse

/-- The configuration that a file holds, given its bytes or why they cannot be read. -/
def ofFile (content : Except FileError ByteArray) : Except ConfigError Config :=
  match content with
  | .error cause => .error (.file cause)
  | .ok bytes =>
    match String.fromUTF8? bytes with
    | some text => parse text
    | none => .error (.file .notUnicode)

/-! ## Writing -/

/-- The settings outside of tables. -/
def settingLines (c : Config) : List Char :=
  Toml.pairLine "platform" (Toml.quote c.platform.label.toList) ++
    Toml.pairLine "strict_references" (Toml.booleanText c.strictReferences) ++
    Toml.pairLine "naming_strategy" (Toml.quote c.namingStrategy.toList) ++
    c.defaultSchema.elim [] fun schema => Toml.pairLine "default_schema" (Toml.quote schema.toList)

end Config

/-- The lines of the defaults. -/
def Defaults.settingLines (d : Defaults) : List Char :=
  Toml.pairLine "id_method" (Toml.quote d.idMethod.label.toList) ++
    Toml.pairLine "naming_method" (Toml.quote d.namingMethod.label.toList) ++
    Toml.pairLine "string_format" (Toml.quote d.stringFormat.label.toList) ++
    Toml.pairLine "heavy_indexing" (Toml.booleanText d.heavyIndexing)

namespace Config

/-- The configuration as the text of a file. -/
def render (c : Config) : String :=
  String.ofList (c.settingLines ++ '\n' :: (Toml.headerLine "defaults" ++ c.defaults.settingLines))

/-! ## JSON -/

def toJson (c : Config) : Json :=
  .object [("platform", .string c.platform.label), ("strict_references", .bool c.strictReferences),
    ("naming_strategy", .string c.namingStrategy),
    ("default_schema", .ofOption .string c.defaultSchema), ("defaults", c.defaults.toJson)]

def ofJson? (j : Json) : Option Config := do
  let r ← j.record?
    ["platform", "strict_references", "naming_strategy", "default_schema", "defaults"]
  some {
    platform := ← r.orDefault "platform" (Json.choice? Platform.ofLabel?) .generic
    strictReferences := ← r.orDefault "strict_references" Json.bool? false
    namingStrategy := ← r.orDefault "naming_strategy" Json.string? "default"
    defaultSchema := ← r.orDefault "default_schema" (Json.nullable? Json.string?) none
    defaults := ← r.orDefault "defaults" Defaults.ofJson? {} }

example : (parse "platform = 'mysql' # c\ndefaults.heavy_indexing = true").toOption =
    some { platform := .mysql, defaults := { heavyIndexing := true } } := by decide +kernel
example : (parse "[defaults]\n[defaults]").toOption = none := by decide +kernel

end Config

end RelSchema
