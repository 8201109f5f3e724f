import TaggedTuple.Config.Document
import TaggedTuple.Proofs.Config.RoundTrip
import TaggedTuple.Proofs.Toml.DistinctKeys

/-!
# Configurations overwrite the defaults

A configuration file may leave out every key. What it gives is a set of keys with values (`Gives`);
whatever else it says has no effect, and neither has the order in which it says it. A file whose
values are of the kinds of their keys (`WellTyped`) is read, and the configuration has the value of
the file for each key that is given and the default for every other one
(`parse_overwrites_defaults`).

A document has at most one value for a key, since no table of it names a key twice. So the values of
a file are what the look-ups in its sections find (`gives_iff_found`), and in the configuration that
is read each value is the one that is found, or else the default (`value?_ofFound`).
-/

namespace TaggedTuple

open Toml Toml.Reader

/-! ### Keys and their values -/

/-- The kind of the values of a key. -/
inductive SettingKind where
  | string
  | strings
  | tagPolicy
  | widthPolicy
  | boolean
  deriving DecidableEq, Repr

namespace SettingKind

/-- The values of a kind. -/
def Value : SettingKind → Type
  | string => String
  | strings => List String
  | tagPolicy => TagPolicy
  | widthPolicy => WidthPolicy
  | boolean => Bool

/-- A value as it stands in a document: a policy is given by its name. -/
def datum : (κ : SettingKind) → κ.Value → Datum
  | string, s => .string s
  | strings, ss => .array (ss.map .string)
  | tagPolicy, p => .string p.text
  | widthPolicy, p => .string p.text
  | boolean, b => .boolean b

/-- Reads a value of a kind. -/
def read? : (κ : SettingKind) → Datum → Option κ.Value
  | string => Datum.string?
  | strings => Config.readStrings
  | tagPolicy => Config.readChoice TagPolicy.ofText?
  | widthPolicy => Config.readChoice WidthPolicy.ofText?
  | boolean => Datum.boolean?

/-- A value as it stands in a document is read back. -/
theorem read?_datum (κ : SettingKind) (v : κ.Value) : κ.read? (κ.datum v) = some v := by
  cases κ with
  | string => rfl
  | strings => exact Config.readStrings_map v
  | tagPolicy => exact TagPolicy.ofText?_text v
  | widthPolicy => exact WidthPolicy.ofText?_text v
  | boolean => rfl

end SettingKind

/-- The keys that mean something in a configuration file. -/
inductive ConfigKey where
  | name
  | version
  | dependencies
  | root
  | entry
  | tagPolicy
  | widthPolicy
  | canonicalizeLayouts
  deriving DecidableEq, Repr

namespace ConfigKey

/-- The section that a key belongs to. -/
def sectionName : ConfigKey → String
  | name | version | dependencies | root | entry => "package"
  | tagPolicy | widthPolicy => "types"
  | canonicalizeLayouts => "cache"

/-- The name of a key in its section. -/
def text : ConfigKey → String
  | name => "name"
  | version => "version"
  | dependencies => "dependencies"
  | root => "root"
  | entry => "entry"
  | tagPolicy => "tag_policy"
  | widthPolicy => "width_policy"
  | canonicalizeLayouts => "canonicalize_layouts"

/-- A key is known by its name. -/
theorem text_injective : Function.Injective text := by
  intro k k' h
  cases k <;> cases k' <;> first | rfl | exact absurd h (by decide)

/-- The kind of the values of a key. -/
def kind : ConfigKey → SettingKind
  | name | version | root | entry => .string
  | dependencies => .strings
  | tagPolicy => .tagPolicy
  | widthPolicy => .widthPolicy
  | canonicalizeLayouts => .boolean

/-- The values of a key. -/
abbrev Value (k : ConfigKey) : Type := k.kind.Value

end ConfigKey

namespace Config

/-- The value of a key in a configuration. -/
def value? (c : Config) : (k : ConfigKey) → Option k.Value
  | .name => c.package.name
  | .version => c.package.version
  | .dependencies => some c.package.dependencies
  | .root => some c.package.root
  | .entry => some c.package.entry
  | .tagPolicy => some c.types.tags
  | .widthPolicy => some c.types.width
  | .canonicalizeLayouts => some c.canonicalizeLayouts

/-- A configuration is the values of its keys. -/
theorem eq_of_value?_eq {c c' : Config} (h : ∀ k, c.value? k = c'.value? k) : c = c' := by
  obtain ⟨⟨name, version, dependencies, root, entry⟩, ⟨tags, width⟩, canonicalizeLayouts⟩ := c
  obtain rfl : name = _ := h .name
  obtain rfl : version = _ := h .version
  obtain rfl : dependencies = _ := Option.some.inj (h .dependencies)
  obtain rfl : root = _ := Option.some.inj (h .root)
  obtain rfl : entry = _ := Option.some.inj (h .entry)
  obtain rfl : tags = _ := Option.some.inj (h .tagPolicy)
  obtain rfl : width = _ := Option.some.inj (h .widthPolicy)
  obtain rfl : canonicalizeLayouts = _ := Option.some.inj (h .canonicalizeLayouts)
  rfl

/-- A configuration has the given values, and those of another one for all other keys. -/
structure Overwrites (c base : Config) (given : (k : ConfigKey) → k.Value → Prop) : Prop where
  overwritten : ∀ k v, given k v → c.value? k = some v
  kept : ∀ k, (∀ v, ¬given k v) → c.value? k = base.value? k

/-- There is only one such configuration. -/
theorem Overwrites.unique {c c' base : Config} {given : (k : ConfigKey) → k.Value → Prop}
    (h : c.Overwrites base given) (h' : c'.Overwrites base given) : c = c' := by
  refine eq_of_value?_eq fun k => ?_
  by_cases hk : ∃ v, given k v
  · obtain ⟨v, hv⟩ := hk
    rw [h.overwritten k v hv, h'.overwritten k v hv]
  · rw [not_exists] at hk
    rw [h.kept k hk, h'.kept k hk]

/-! ### What a file gives -/

section document

variable {entries : List (String × Datum)}

/-- A document gives a key a value. -/
def Gives (entries : List (String × Datum)) (k : ConfigKey) (v : k.Value) : Prop :=
  ∃ es, (k.sectionName, .table es) ∈ entries ∧ (k.text, k.kind.datum v) ∈ es

/-- The sections that a document has are tables, and the keys that it gives in them have values of
their kinds. -/
structure WellTyped (entries : List (String × Datum)) : Prop where
  sections : ∀ (k : ConfigKey) d, (k.sectionName, d) ∈ entries → ∃ es, d = .table es
  values : ∀ (k : ConfigKey) es d, (k.sectionName, .table es) ∈ entries → (k.text, d) ∈ es →
    ∃ v, d = k.kind.datum v

/-- The entries of a table in a document; it has none if the document lacks it. -/
def tableOf (entries : List (String × Datum)) (name : String) : List (String × Datum) :=
  match entries.lookup name with
  | some (.table es) => es
  | _ => []

/-- The value that is found for a key. -/
def found? (entries : List (String × Datum)) (k : ConfigKey) : Option k.Value :=
  ((tableOf entries k.sectionName).lookup k.text).bind k.kind.read?

/-- What stands in the table of a section stands in a section of that name. -/
theorem mem_tableOf {name : String} {x : String × Datum} (h : x ∈ tableOf entries name) :
    ∃ es, (name, .table es) ∈ entries ∧ x ∈ es := by
  rw [tableOf] at h
  split at h
  next es hlookup => exact ⟨es, mem_of_lookup_eq_some hlookup, h⟩
  next => exact absurd h List.not_mem_nil

/-- A key is left out, or a value of its kind is found. -/
theorem WellTyped.found?_cases (h : WellTyped entries) (k : ConfigKey) :
    ((tableOf entries k.sectionName).lookup k.text = none ∧ found? entries k = none) ∨
      ∃ v, (tableOf entries k.sectionName).lookup k.text = some (k.kind.datum v) ∧
        found? entries k = some v := by
  rw [found?]
  cases hlookup : (tableOf entries k.sectionName).lookup k.text with
  | none => exact .inl ⟨rfl, rfl⟩
  | some d =>
      obtain ⟨es, hes, hmem⟩ := mem_tableOf (mem_of_lookup_eq_some hlookup)
      obtain ⟨v, rfl⟩ := h.values k es d hes hmem
      exact .inr ⟨v, rfl, k.kind.read?_datum v⟩

/-- What a document gives is what the look-ups find. -/
theorem gives_iff_found (h : WellTyped entries) (hkeys : (Datum.table entries).DistinctKeys)
    (k : ConfigKey) (v : k.Value) : Gives entries k v ↔ found? entries k = some v := by
  obtain ⟨hnodup, htables⟩ := Datum.distinctKeys_table_iff.mp hkeys
  constructor
  · rintro ⟨es, hes, hv⟩
    have htable : tableOf entries k.sectionName = es := by
      rw [tableOf, (lookup_eq_some_iff_mem hnodup).mpr hes]
    have hes := (Datum.distinctKeys_table_iff.mp (htables _ hes)).1
    rw [found?, htable, (lookup_eq_some_iff_mem hes).mpr hv]
    exact k.kind.read?_datum v
  · intro hv
    rcases h.found?_cases k with ⟨-, hnone⟩ | ⟨w, hlookup, hw⟩
    · cases hnone.symm.trans hv
    · obtain rfl := Option.some.inj (hw.symm.trans hv)
      exact mem_tableOf (mem_of_lookup_eq_some hlookup)

/-! ### Reading it -/

/-- A section that is left out is read like an empty one. -/
theorem WellTyped.readKey_section (h : WellTyped entries) (k : ConfigKey) {α : Type}
    {default a : α} {read : Datum → Option α}
    (hread : read (.table (tableOf entries k.sectionName)) = some a)
    (hempty : read (.table []) = some default) :
    readKey entries k.sectionName default read = some a := by
  rw [← hread, readKey, tableOf]
  cases hlookup : entries.lookup k.sectionName with
  | none => exact hempty.symm
  | some d =>
      obtain ⟨es, rfl⟩ := h.sections k d (mem_of_lookup_eq_some hlookup)
      rfl

/-- A key of a well-typed document has the value that is found, or else its default. -/
theorem WellTyped.readKey_eq (h : WellTyped entries) (k : ConfigKey) (default : k.Value) :
    readKey (tableOf entries k.sectionName) k.text default k.kind.read?
      = some ((found? entries k).getD default) := by
  rcases h.found?_cases k with ⟨hlookup, hfound⟩ | ⟨v, hlookup, hfound⟩
  · rw [readKey, hlookup, hfound]
    rfl
  · rw [readKey, hlookup, hfound]
    exact k.kind.read?_datum v

/-- A key without a default has the value that is found, if any. -/
theorem WellTyped.readKey_optional_eq (h : WellTyped entries) (k : ConfigKey) :
    readKey (tableOf entries k.sectionName) k.text none (fun d => (k.kind.read? d).map some)
      = some (found? entries k) := by
  rcases h.found?_cases k with ⟨hlookup, hfound⟩ | ⟨v, hlookup, hfound⟩
  · rw [readKey, hlookup, hfound]
  · rw [readKey, hlookup, hfound]
    exact congrArg (Option.map some) (k.kind.read?_datum v)

/-- The package with the values that are found in a document. -/
def foundPackage (entries : List (String × Datum)) : PackageConfig :=
  let default : PackageConfig := {}
  { name := found? entries .name
    version := found? entries .version
    dependencies := (found? entries .dependencies).getD default.dependencies
    root := (found? entries .root).getD default.root
    entry := (found? entries .entry).getD default.entry }

/-- The policies that are found in a document. -/
def foundTypes (entries : List (String × Datum)) : TuplePolicy :=
  let default : TuplePolicy := {}
  { tags := (found? entries .tagPolicy).getD default.tags
    width := (found? entries .widthPolicy).getD default.width }

/-- The configuration with the values that are found in a document. -/
def ofFound (entries : List (String × Datum)) : Config where
  package := foundPackage entries
  types := foundTypes entries
  canonicalizeLayouts :=
    (found? entries .canonicalizeLayouts).getD ({} : Config).canonicalizeLayouts

/-- The section of the package is read to the values that are found in it. -/
theorem WellTyped.readPackage_eq (h : WellTyped entries) :
    readPackage (.table (tableOf entries "package")) = some (foundPackage entries) := by
  have hname := h.readKey_optional_eq .name
  have hversion := h.readKey_optional_eq .version
  have hdependencies := h.readKey_eq .dependencies ({} : PackageConfig).dependencies
  have hroot := h.readKey_eq .root ({} : PackageConfig).root
  have hentry := h.readKey_eq .entry ({} : PackageConfig).entry
  refine Option.bind_eq_some_iff.mpr ⟨_, hname, ?_⟩
  refine Option.bind_eq_some_iff.mpr ⟨_, hversion, ?_⟩
  refine Option.bind_eq_some_iff.mpr ⟨_, hdependencies, ?_⟩
  refine Option.bind_eq_some_iff.mpr ⟨_, hroot, ?_⟩
  exact Option.bind_eq_some_iff.mpr ⟨_, hentry, rfl⟩

/-- The section of the policies is read to the values that are found in it. -/
theorem WellTyped.readTypes_eq (h : WellTyped entries) :
    readTypes (.table (tableOf entries "types")) = some (foundTypes entries) := by
  have htags := h.readKey_eq .tagPolicy ({} : TuplePolicy).tags
  have hwidth := h.readKey_eq .widthPolicy ({} : TuplePolicy).width
  refine Option.bind_eq_some_iff.mpr ⟨_, htags, ?_⟩
  exact Option.bind_eq_some_iff.mpr ⟨_, hwidth, rfl⟩

/-- The section of the cache is read to the value that is found in it. -/
theorem WellTyped.readCache_eq (h : WellTyped entries) :
    readCache (.table (tableOf entries "cache")) = some (ofFound entries).canonicalizeLayouts :=
  h.readKey_eq .canonicalizeLayouts ({} : Config).canonicalizeLayouts

/-- A well-typed document is read, and it describes the values that are found in it. -/
theorem WellTyped.ofEntries_eq (h : WellTyped entries) :
    ofEntries entries = some (ofFound entries) := by
  have hpackage := h.readKey_section .name h.readPackage_eq rfl
  have htypes := h.readKey_section .tagPolicy h.readTypes_eq rfl
  have hcache := h.readKey_section .canonicalizeLayouts h.readCache_eq rfl
  refine Option.bind_eq_some_iff.mpr ⟨_, hpackage, ?_⟩
  refine Option.bind_eq_some_iff.mpr ⟨_, htypes, ?_⟩
  exact Option.bind_eq_some_iff.mpr ⟨_, hcache, rfl⟩

/-- Each value is the one that is found, or else the default. -/
theorem value?_ofFound (k : ConfigKey) :
    (ofFound entries).value? k = (found? entries k).or (({} : Config).value? k) := by
  cases k with
  | name => exact Option.or_none.symm
  | version => exact Option.or_none.symm
  | dependencies => exact Option.or_some.symm
  | root => exact Option.or_some.symm
  | entry => exact Option.or_some.symm
  | tagPolicy => exact Option.or_some.symm
  | widthPolicy => exact Option.or_some.symm
  | canonicalizeLayouts => exact Option.or_some.symm

/-- The values that are found overwrite the defaults. -/
theorem WellTyped.overwrites (h : WellTyped entries) (hkeys : (Datum.table entries).DistinctKeys) :
    (ofFound entries).Overwrites {} (Gives entries) where
  overwritten k v hv := by
    rw [value?_ofFound, (gives_iff_found h hkeys k v).mp hv, Option.some_or]
  kept k hk := by
    have hnone : found? entries k = none := Option.eq_none_iff_forall_ne_some.mpr fun v hv =>
      hk v ((gives_iff_found h hkeys k v).mpr hv)
    rw [value?_ofFound, hnone, Option.none_or]

/-- A text that holds a well-typed document is parsed to the values that are found in it. -/
theorem WellTyped.parse_eq {text : String} (hread : Document.read text = some entries)
    (h : WellTyped entries) : parse text = .ok (ofFound entries) := by
  rw [parse, hread, Option.bind_some, h.ofEntries_eq]

/--
Every key of a configuration file may be left out, whatever the others are. A document whose
sections are tables and whose keys have values of their kinds is read, and the configuration is the
default with the given values in their places; unknown keys and sections make no difference to it,
and two such documents that give the same values describe the same configuration.
-/
theorem parse_overwrites_defaults {text : String} (hread : Document.read text = some entries)
    (htyped : WellTyped entries) :
    ∃ c, parse text = .ok c ∧ c.Overwrites {} (Gives entries) ∧
      ∀ text' entries', Document.read text' = some entries' → WellTyped entries' →
        (∀ k v, Gives entries' k v ↔ Gives entries k v) → parse text' = .ok c := by
  have hc := htyped.overwrites (Document.read_distinctKeys hread)
  refine ⟨ofFound entries, htyped.parse_eq hread, hc, fun text' entries' hread' htyped' hsame => ?_⟩
  have hc' := htyped'.overwrites (Document.read_distinctKeys hread')
  have hgives : Gives entries' = Gives entries := funext₂ fun k v => propext (hsame k v)
  rw [hgives] at hc'
  rw [htyped'.parse_eq hread', hc'.unique hc]

/-- A file that gives one policy, and in another section a key that means nothing. -/
def extensibleText : String := "[cache]\nold = true\n[types]\nwidth_policy = \"extensible\"\n"

/-- The document in the file. -/
def extensibleDocument : List (String × Datum) :=
  [("cache", .table [("old", .boolean true)]),
    ("types", .table [("width_policy", .string "extensible")])]

/-- The file is what the writer makes of the two sections. -/
theorem read_extensibleText : Document.read extensibleText = some extensibleDocument := by
  have hcache := (written_title "cache" (by decide)).append
    (written_writeKey "old" (by decide) (valueText_boolean true))
  have htypes := (written_title "types" (by decide)).append
    (written_writeKey "width_policy" (by decide) (valueText_writeString "extensible"))
  have hwritten : Written extensibleText.toList
      ([("cache", [("old", .boolean true)]),
        ("types", [("width_policy", .string "extensible")])].flatMap Section.lines) :=
    hcache.append htypes
  exact Document.read_eq_of_lines (hwritten.lines_eq (by decide))
    (by decide : ["cache", "types"].Nodup) (by simp)

/-- The policy is the only key with a meaning that the document names. -/
theorem eq_of_mem_extensibleDocument {k : ConfigKey} {es : List (String × Datum)} {d : Datum}
    (hes : (k.sectionName, .table es) ∈ extensibleDocument) (hd : (k.text, d) ∈ es) :
    k = .widthPolicy ∧ d = .string "extensible" := by
  have hold : k.text ≠ "old" := by cases k <;> decide
  simp only [extensibleDocument, List.mem_cons, List.not_mem_nil, or_false, Prod.mk.injEq,
    Datum.table.injEq] at hes
  obtain ⟨-, rfl⟩ | ⟨-, rfl⟩ := hes
  · exact absurd (Prod.mk.inj (List.mem_singleton.mp hd)).1 hold
  · obtain ⟨hk, rfl⟩ := Prod.mk.inj (List.mem_singleton.mp hd)
    exact ⟨ConfigKey.text_injective hk, rfl⟩

/-- The policy has the name of one, and the sections are tables. -/
theorem wellTyped_extensibleDocument : WellTyped extensibleDocument where
  sections k d h := by
    simp only [extensibleDocument, List.mem_cons, List.not_mem_nil, or_false, Prod.mk.injEq] at h
    obtain ⟨-, rfl⟩ | ⟨-, rfl⟩ := h
    · exact ⟨_, rfl⟩
    · exact ⟨_, rfl⟩
  values k es d hes hd := by
    obtain ⟨rfl, rfl⟩ := eq_of_mem_extensibleDocument hes hd
    exact ⟨WidthPolicy.extensible, rfl⟩

/-- The policy is overwritten, and the section that names another key keeps its default. -/
theorem parse_overwrites_defaults_of_width_policy :
    Document.read extensibleText = some extensibleDocument ∧ WellTyped extensibleDocument ∧
      ∃ c, parse extensibleText = .ok c ∧ c.types.width = .extensible ∧
        c.canonicalizeLayouts = true := by
  obtain ⟨c, hc, hgiven, -⟩ :=
    parse_overwrites_defaults read_extensibleText wellTyped_extensibleDocument
  refine ⟨read_extensibleText, wellTyped_extensibleDocument, c, hc, ?_, ?_⟩
  · exact Option.some.inj (hgiven.overwritten .widthPolicy WidthPolicy.extensible
      ⟨_, List.mem_cons_of_mem _ List.mem_cons_self, List.mem_cons_self⟩)
  · refine Option.some.inj (hgiven.kept .canonicalizeLayouts ?_)
    rintro v ⟨es, hes, hv⟩
    exact absurd (eq_of_mem_extensibleDocument hes hv).1 (by decide)

end document

end Config

end TaggedTuple
