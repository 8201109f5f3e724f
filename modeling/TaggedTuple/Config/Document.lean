import TaggedTuple.Config
import TaggedTuple.Text.Utf8
import TaggedTuple.Toml.Document
import TaggedTuple.Toml.Quoted

/-!
# Configuration files

A configuration file is a document with the sections `package`, `types` and `cache`. Every section
and every key may be left out; keys and sections that mean nothing are ignored. A section may also
be given as an array of its values in their order, of which the last ones may be left out.

`Config.parse` reads a file and `Config.text` writes one.
-/

namespace TaggedTuple

open Toml (Datum)

/-- What was found at a path. -/
inductive FileContent where
  | absent
  | directory
  | bytes (content : List UInt8)

/-- Why a file could not be read. -/
inductive FileError where
  | absent
  | directory
  | notUtf8
  deriving DecidableEq, Repr

/-- Why a configuration could not be loaded. -/
inductive ConfigError where
  | file (path : String) (cause : FileError)
  /-- The text is no document, or a value in it is not of its kind. -/
  | malformed
  deriving DecidableEq, Repr

namespace FileError

/-- The cause in a message. -/
def message : FileError → String
  | .absent => "No such file or directory (os error 2)"
  | .directory => "Is a directory (os error 21)"
  | .notUtf8 => "stream did not contain valid UTF-8"

end FileError

namespace ConfigError

/-- The text of an error about a file. -/
def fileMessage (path : String) (cause : FileError) : String :=
  "failed to read " ++ path ++ ": " ++ cause.message

end ConfigError

/-! ### Reading -/

namespace Config

/-- The entries of a section; `order` names the elements of one that is given as an array. -/
def sectionEntries (order : List String) : Datum → Option (List (String × Datum))
  | .table entries => some entries
  | .array elements => some (order.zip elements)
  | .moment _ => some []
  | _ => none

/-- The value of a key, or the default if the key is left out. -/
def readKey {α : Type} (entries : List (String × Datum)) (key : String) (default : α)
    (read : Datum → Option α) : Option α :=
  match entries.lookup key with
  | none => some default
  | some d => read d

/-- The strings of an array. -/
def readStrings (d : Datum) : Option (List String) := do
  let elements ← d.array?
  elements.mapM Datum.string?

/-- Whether a value says nothing: an array or a table without content. -/
def saysNothing : Datum → Bool
  | .array [] => true
  | .table [] => true
  | _ => false

/-- One of several names, given as a string or as the only key of a table that says nothing else. -/
def readChoice {α : Type} (ofText? : String → Option α) : Datum → Option α
  | .string s => ofText? s
  | .table [(name, d)] => if saysNothing d then ofText? name else none
  | _ => none

/-- Reads the section `package`. -/
def readPackage (d : Datum) : Option PackageConfig := do
  let entries ← sectionEntries ["name", "version", "dependencies", "root", "entry"] d
  let default : PackageConfig := {}
  let name ← readKey entries "name" default.name fun d => d.string?.map some
  let version ← readKey entries "version" default.version fun d => d.string?.map some
  let dependencies ← readKey entries "dependencies" default.dependencies readStrings
  let root ← readKey entries "root" default.root Datum.string?
  let entry ← readKey entries "entry" default.entry Datum.string?
  return { name, version, dependencies, root, entry }

/-- Reads the section `types`. -/
def readTypes (d : Datum) : Option TuplePolicy := do
  let entries ← sectionEntries ["tag_policy", "width_policy"] d
  let default : TuplePolicy := {}
  let tags ← readKey entries "tag_policy" default.tags (readChoice TagPolicy.ofText?)
  let width ← readKey entries "width_policy" default.width (readChoice WidthPolicy.ofText?)
  return { tags, width }

/-- Reads the section `cache`. -/
def readCache (d : Datum) : Option Bool := do
  let entries ← sectionEntries ["canonicalize_layouts"] d
  readKey entries "canonicalize_layouts" ({} : Config).canonicalizeLayouts Datum.boolean?

/-- The configuration that a document describes. -/
def ofEntries (entries : List (String × Datum)) : Option Config := do
  let default : Config := {}
  let package ← readKey entries "package" default.package readPackage
  let types ← readKey entries "types" default.types readTypes
  let canonicalizeLayouts ← readKey entries "cache" default.canonicalizeLayouts readCache
  return { package, types, canonicalizeLayouts }

/-- The configuration that a text describes. -/
def parse (text : String) : Except ConfigError Config :=
  match (Toml.Document.read text).bind ofEntries with
  | some config => .ok config
  | none => .error .malformed

/-- The configuration in a file. -/
def load (path : String) : FileContent → Except ConfigError Config
  | .absent => .error (.file path .absent)
  | .directory => .error (.file path .directory)
  | .bytes content =>
    match Utf8.decode content with
    | .ok text => parse text
    | .error _ => .error (.file path .notUtf8)

/-! ### Writing -/

/-- A line that gives a key a value. -/
def writeKey (key : String) (value : List Char) : List Char :=
  key.toList ++ " = ".toList ++ value ++ ['\n']

/-- A string as a value. -/
def writeString (s : String) : List Char := Toml.quote s.toList

/-- A list of strings as a value: on one line up to one element, else one line for each. -/
def writeStrings : List String → List Char
  | [] => "[]".toList
  | [s] => '[' :: writeString s ++ [']']
  | ss =>
    "[\n".toList ++ ss.flatMap (fun s => "    ".toList ++ writeString s ++ ",\n".toList) ++ [']']

/-- The section `package`. -/
def writePackage (p : PackageConfig) : List Char :=
  "[package]\n".toList
    ++ p.name.elim [] (fun s => writeKey "name" (writeString s))
    ++ p.version.elim [] (fun s => writeKey "version" (writeString s))
    ++ writeKey "dependencies" (writeStrings p.dependencies)
    ++ writeKey "root" (writeString p.root)
    ++ writeKey "entry" (writeString p.entry)

/-- The section `types`. -/
def writeTypes (p : TuplePolicy) : List Char :=
  "[types]\n".toList
    ++ writeKey "tag_policy" (writeString p.tags.text)
    ++ writeKey "width_policy" (writeString p.width.text)

/-- The section `cache`. -/
def writeCache (canonicalizeLayouts : Bool) : List Char :=
  "[cache]\n".toList ++ writeKey "canonicalize_layouts" (toString canonicalizeLayouts).toList

/-- The text of a configuration. -/
def text (c : Config) : String :=
  String.ofList (writePackage c.package ++ '\n' :: writeTypes c.types
    ++ '\n' :: writeCache c.canonicalizeLayouts)

end Config

end TaggedTuple
