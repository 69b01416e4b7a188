import RelSchema.Database
import RelSchema.Finalization
import RelSchema.Json.Record
import RelSchema.Report

/-!
# Schemas in JSON

How the parts of a schema are written as JSON, with every field in declaration order, and how those
that are also accepted as input are read.
-/

namespace RelSchema

/-! ## Choices with a label -/

/-- A label as a JSON string. -/
def Json.ofLabel {α : Type} (label : α → String) (a : α) : Json := .string (label a)

/-! ## Settings -/

namespace Defaults

def toJson (d : Defaults) : Json :=
  .object [("id_method", .string d.idMethod.label), ("naming_method", .string d.namingMethod.label),
    ("string_format", .string d.stringFormat.label), ("heavy_indexing", .bool d.heavyIndexing)]

/-- Missing fields have their standard values. -/
def ofJson? (j : Json) : Option Defaults := do
  let r ← j.record? ["id_method", "naming_method", "string_format", "heavy_indexing"]
  some {
    idMethod := ← r.orDefault "id_method" (Json.choice? IdMethod.ofLabel?) .native
    namingMethod := ← r.orDefault "naming_method" (Json.choice? NamingMethod.ofLabel?) .underscore
    stringFormat := ← r.orDefault "string_format" (Json.choice? StringFormat.ofLabel?) .yaml
    heavyIndexing := ← r.orDefault "heavy_indexing" Json.bool? false }

end Defaults

namespace IdMethodParameter

def toJson (p : IdMethodParameter) : Json :=
  .object [("name", .ofOption .string p.name), ("value", .string p.value)]

def ofJson? (j : Json) : Option IdMethodParameter := do
  let r ← j.record? ["name", "value"]
  some { name := ← r.optional "name" Json.string?, value := ← r.required "value" Json.string? }

end IdMethodParameter

namespace BehaviorDeclaration

def toJson (b : BehaviorDeclaration) : Json :=
  .object [("name", .string b.name),
    ("parameters", .object (b.parameters.entries.map fun (key, value) => (key, .string value)))]

/-- Parameters: an object of texts. -/
def parameters? : Json → Option (KeyMap String)
  | .object members =>
    (members.mapM fun m => (Json.string? m.2).map (m.1, ·)).map KeyMap.ofList
  | _ => none

def ofJson? (j : Json) : Option BehaviorDeclaration := do
  let r ← j.record? ["name", "parameters"]
  some {
    name := ← r.required "name" Json.string?
    parameters := ← r.orDefault "parameters" parameters? .empty }

end BehaviorDeclaration

/-! ## Handles -/

def TableId.toJson (id : TableId) : Json := .ofNat id.index

def ForeignKeyId.toJson (id : ForeignKeyId) : Json :=
  .object [("table", id.table.toJson), ("position", .ofNat id.position)]

def CrossForeignKeys.toJson (c : CrossForeignKeys) : Json :=
  .object [("middle_table", c.middleTable.toJson), ("incoming", c.incoming.toJson),
    ("outgoing", c.outgoing.toJson)]

/-! ## Columns and constraints -/

namespace ColumnType

def toJson : ColumnType → Json
  | enum values => .object [("type", .string "enum"), ("values", .ofStrings values)]
  | t => .object [("type", .string t.label)]

/-- The type with this label; an enumeration takes its values from the other field. -/
def ofLabel? (label : String) (values? : Option (List String)) : Option ColumnType :=
  if label = "enum" then values?.map enum else plain.find? (·.label == label)

/-- A type is a record with the field `type` and, for an enumeration, `values`; fields that the type
has no use for are ignored. -/
def ofJson? : Json → Option ColumnType
  | .object members => do
    let r ← (Json.object (members.filter fun m => m.1 == "type" || m.1 == "values")).record?
      ["type", "values"]
    ofLabel? (← r.required "type" Json.string?) (r.required "values" (Json.list? Json.string?))
  | .array [.string "enum", values] => (Json.list? Json.string? values).map enum
  | .array [.string label] => plain.find? (·.label == label)
  | _ => none

end ColumnType

def Column.toJson (c : Column) : Json :=
  .object [("name", .string c.name), ("external_name", .string c.externalName),
    ("position", .ofNat c.position), ("column_type", c.columnType.toJson),
    ("size", .ofOption .ofNat c.size), ("scale", .ofOption .ofNat c.scale),
    ("primary_key", .bool c.primaryKey), ("auto_increment", .bool c.autoIncrement),
    ("unique", .bool c.unique), ("not_null", .bool c.notNull), ("lazy_load", .bool c.lazyLoad),
    ("inheritance", .bool c.inheritance), ("default_value", .ofOption .string c.defaultValue),
    ("description", .ofOption .string c.description),
    ("referrers", .array (c.referrers.map ForeignKeyId.toJson))]

def ColumnPair.toJson (p : ColumnPair) : Json :=
  .object [("local", .string p.localColumn), ("foreign", .string p.foreignColumn)]

def ForeignKey.toJson (k : ForeignKey) : Json :=
  .object [("name", .string k.name), ("foreign_table", .string k.foreignTable),
    ("foreign_schema", .ofOption .string k.foreignSchema),
    ("references", .array (k.references.map ColumnPair.toJson)),
    ("on_update", .string k.onUpdate.label), ("on_delete", .string k.onDelete.label),
    ("skip_sql", .bool k.skipSql)]

def IndexColumn.toJson (c : IndexColumn) : Json :=
  .object [("name", .string c.name), ("size", .ofOption .ofNat c.size)]

def Index.toJson (i : Index) : Json :=
  .object [("name", .string i.name), ("columns", .array (i.columns.map IndexColumn.toJson)),
    ("unique", .bool i.unique)]

/-! ## Tables and databases -/

/-- The inherited defaults are not written. -/
def Table.toJson (t : Table) : Json :=
  .object [("name", .string t.name), ("schema", .ofOption .string t.schema),
    ("alias", .ofOption .string t.aliasOf), ("description", .ofOption .string t.description),
    ("id_method", .ofOption (Json.ofLabel IdMethod.label) t.idMethod),
    ("id_method_parameters", .array (t.idMethodParameters.map IdMethodParameter.toJson)),
    ("read_only", .bool t.readOnly), ("is_abstract", .bool t.isAbstract),
    ("skip_generation", .bool t.skipGeneration), ("is_cross_ref", .bool t.isCrossRef),
    ("string_format", .ofOption (Json.ofLabel StringFormat.label) t.stringFormat),
    ("heavy_indexing", .ofOption .bool t.heavyIndexing),
    ("naming_method", .ofOption (Json.ofLabel NamingMethod.label) t.namingMethod),
    ("columns", .array (t.columns.list.map Column.toJson)),
    ("foreign_keys", .array (t.foreignKeys.map ForeignKey.toJson)),
    ("indices", .array (t.indices.map Index.toJson)),
    ("unices", .array (t.uniques.map Index.toJson)),
    ("behaviors", .array (t.behaviors.map BehaviorDeclaration.toJson)),
    ("referrers", .array (t.referrers.map ForeignKeyId.toJson)),
    ("contains_foreign_pk", .bool t.containsForeignPrimaryKey)]

def Database.toJson (db : Database) : Json :=
  .object [("name", .string db.name), ("platform", .string db.platform.label),
    ("default_schema", .ofOption .string db.defaultSchema), ("defaults", db.defaults.toJson),
    ("tables", .array (db.tables.map Table.toJson))]

/-! ## Outcomes -/

def AssignedName.toJson (a : AssignedName) : Json :=
  .object [("kind", .string a.kind.label), ("position", .ofNat a.position),
    ("name", .string a.name)]

def SynthesizedIndex.toJson (i : SynthesizedIndex) : Json :=
  .object [("table", .string i.table), ("name", .string i.name), ("columns", .ofStrings i.columns),
    ("reason", .string i.reason.label)]

end RelSchema
