import RelSchema.Config
import RelSchema.Proofs.TomlDocuments

/-!
# Reading a saved configuration back

Whatever its settings are, the text that a configuration is saved as is read as that configuration.
The settings are written in front of the section of the defaults, each on a line under its own key.
The schema of tables that name none is left out when there is none, and a missing one reads as none.
-/

namespace RelSchema

/-! ## The saved document -/

/-- The defaults as pairs of a key and a value. -/
def Defaults.pairs (d : Defaults) : List (String × Toml) :=
  [("id_method", .string d.idMethod.label), ("naming_method", .string d.namingMethod.label),
    ("string_format", .string d.stringFormat.label), ("heavy_indexing", .boolean d.heavyIndexing)]

namespace Config

/-- The settings outside of tables as pairs of a key and a value. -/
def pairs (c : Config) : List (String × Toml) :=
  [("platform", .string c.platform.label), ("strict_references", .boolean c.strictReferences),
    ("naming_strategy", .string c.namingStrategy)] ++
    (c.defaultSchema.map fun schema => ("default_schema", Toml.string schema)).toList

/-- The entries of the document: the settings, then the section of the defaults. -/
def entries (c : Config) : List (String × Toml) :=
  c.pairs ++ [("defaults", .table c.defaults.pairs)]

open Toml in
theorem readAs_settingLines (c : Config) {rest : List Char} {lines : List Line}
    (h : Line.ReadAs rest lines) :
    Line.ReadAs (c.settingLines ++ rest) (pairLines c.pairs ++ lines) := by
  obtain ⟨platform, strictReferences, namingStrategy, defaultSchema, defaults⟩ := c
  have hschema : Line.ReadAs
      (defaultSchema.elim [] (fun schema => pairLine "default_schema" (quote schema.toList)) ++
        rest)
      (pairLines (defaultSchema.map fun schema => ("default_schema", Toml.string schema)).toList ++
        lines) := by
    cases defaultSchema with
    | none => exact h
    | some schema => exact h.pairLine "default_schema" (by decide) (writes_quote schema)
  have hstrategy := hschema.pairLine "naming_strategy" (by decide) (writes_quote namingStrategy)
  have hstrict := hstrategy.pairLine "strict_references" (by decide)
    (writes_booleanText strictReferences)
  have hplatform := hstrict.pairLine "platform" (by decide) (writes_quote platform.label)
  simpa only [settingLines, pairs, pairLines, List.map_append, List.map_cons, List.map_nil,
    List.cons_append, List.nil_append, List.append_assoc] using hplatform

end Config

open Toml in
theorem Defaults.readAs_settingLines (d : Defaults) :
    Line.ReadAs d.settingLines (pairLines d.pairs) := by
  have hindexing := Line.ReadAs.nil.pairLine "heavy_indexing" (by decide)
    (writes_booleanText d.heavyIndexing)
  have hformat := hindexing.pairLine "string_format" (by decide)
    (writes_quote d.stringFormat.label)
  have hnaming := hformat.pairLine "naming_method" (by decide) (writes_quote d.namingMethod.label)
  have hid := hnaming.pairLine "id_method" (by decide) (writes_quote d.idMethod.label)
  simpa only [settingLines, pairs, pairLines, List.map_cons, List.map_nil, List.append_nil,
    List.append_assoc] using hid

/-! ## Decoding -/

namespace Toml

variable {α : Type} {entries : List (String × Toml)} {name : String} {value : α}

theorem orDefault_of_lookup {decode : Toml → Option α} {t : Toml} {a : α}
    (hentry : entries.lookup name = some t) (hdecode : decode t = some a) :
    orDefault (entries.lookup name) decode value = some a := by
  rw [hentry, orDefault, hdecode]

theorem orDefault_label {label : α → String} {ofLabel? : String → Option α} {a : α}
    (hlabel : ofLabel? (label a) = some a) (hentry : entries.lookup name = some (.string (label a))) :
    orDefault (entries.lookup name) (choice? ofLabel?) value = some a :=
  orDefault_of_lookup hentry hlabel

theorem orDefault_boolean {b standard : Bool} (hentry : entries.lookup name = some (.boolean b)) :
    orDefault (entries.lookup name) boolean? standard = some b := orDefault_of_lookup hentry rfl

theorem orDefault_string {s standard : String} (hentry : entries.lookup name = some (.string s)) :
    orDefault (entries.lookup name) string? standard = some s := orDefault_of_lookup hentry rfl

end Toml

theorem Defaults.ofToml?_pairs (d : Defaults) : ofToml? (.table d.pairs) = some d := by
  simp only [ofToml?, Toml.fields?, Option.bind_eq_bind, Option.bind_some]
  rw [Toml.orDefault_label d.idMethod.ofLabel?_label (by simp [pairs]),
    Toml.orDefault_label d.namingMethod.ofLabel?_label (by simp [pairs, KeyMap.lookup_cons_eq]),
    Toml.orDefault_label d.stringFormat.ofLabel?_label (by simp [pairs, KeyMap.lookup_cons_eq]),
    Toml.orDefault_boolean (b := d.heavyIndexing) (by simp [pairs, KeyMap.lookup_cons_eq])]
  rfl

namespace Config

theorem nodup_keys (c : Config) : (c.pairs.map Prod.fst ++ ["defaults"]).Nodup := by
  cases hschema : c.defaultSchema <;> simp [pairs, hschema]

theorem toml_render (c : Config) :
    Toml.parse? c.render = some (.table c.entries) := by
  have hlines := c.readAs_settingLines
    (c.defaults.readAs_settingLines.headerLine "defaults" (by decide)).blank
  rw [render, Toml.parse?_eq_ofLines? hlines]
  · exact Toml.ofLines?_section c.nodup_keys (by simp [Defaults.pairs])
  · simp [settingLines, Toml.pairLine]

/-- The key of the schema is missing when there is none, and a missing one reads as none. -/
theorem orDefault_schema (c : Config) :
    Toml.orDefault (c.entries.lookup "default_schema") (fun t => t.string?.map some) none =
      some c.defaultSchema := by
  cases hschema : c.defaultSchema with
  | none => simp [entries, pairs, hschema, KeyMap.lookup_cons_eq, Toml.orDefault]
  | some schema => simp [entries, pairs, hschema, KeyMap.lookup_cons_eq, Toml.orDefault, Toml.string?]

theorem lookup_defaults (c : Config) :
    c.entries.lookup "defaults" = some (.table c.defaults.pairs) := by
  cases hschema : c.defaultSchema <;> simp [entries, pairs, hschema, KeyMap.lookup_cons_eq]

theorem ofToml?_entries (c : Config) : ofToml? (.table c.entries) = some c := by
  simp only [ofToml?, Toml.fields?, Option.bind_eq_bind, Option.bind_some]
  rw [Toml.orDefault_label c.platform.ofLabel?_label (by simp [entries, pairs]),
    Toml.orDefault_boolean (b := c.strictReferences) (by simp [entries, pairs, KeyMap.lookup_cons_eq]),
    Toml.orDefault_string (s := c.namingStrategy) (by simp [entries, pairs, KeyMap.lookup_cons_eq]),
    c.orDefault_schema,
    Toml.orDefault_of_lookup c.lookup_defaults c.defaults.ofToml?_pairs]
  rfl

theorem fromUTF8?_toUTF8 (s : String) : String.fromUTF8? s.toUTF8 = some s := by
  unfold String.fromUTF8?
  exact dif_pos s.isValidUTF8

/-- **A saved configuration reads back.** The text that a configuration is saved as is read as that
configuration, whatever characters its strings hold, and so are the bytes of the text. -/
theorem parse_render (c : Config) :
    parse c.render = .ok c ∧ ofFile (.ok c.render.toUTF8) = .ok c := by
  have hparse : parse c.render = .ok c := by
    rw [parse, toml_render, Option.bind_some, ofToml?_entries]
  refine ⟨hparse, ?_⟩
  simp only [ofFile, fromUTF8?_toUTF8, hparse]

end Config

end RelSchema
