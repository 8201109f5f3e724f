import TaggedTuple.Toml.Scalar
import TaggedTuple.Toml.Table

/-!
# Documents

A document is a list of lines: headers, and keys with their values. `Document.read` reads the lines
and then defines tables and entries in their order. A document that breaks a rule of the format has
no data.
-/

namespace TaggedTuple.Toml

/-- A line of a document that says something. -/
inductive Line where
  | assign (key : KeyPath) (d : Datum)
  /-- A header in brackets. -/
  | header (key : KeyPath)
  /-- A header in double brackets. -/
  | elementHeader (key : KeyPath)

/-- A key has fewer parts than this. -/
def maxKeyParts : Nat := 80

/-- Arrays and inline tables are nested at most this deep. -/
def maxNesting : Nat := 79

/-- Whether a character may stand in a key without quotes. -/
def isBareKey (c : Char) : Bool :=
  isDigit c || decide ('a' ≤ c ∧ c ≤ 'z') || decide ('A' ≤ c ∧ c ≤ 'Z') || c == '-' || c == '_'

/-- The path of the parts of a key. -/
def KeyPath.ofParts (first : String) (more : List String) : KeyPath :=
  match more.getLast? with
  | none => ⟨[], first⟩
  | some name => ⟨first :: more.dropLast, name⟩

namespace Reader

/-- Takes one part of a key, with the blanks around it. -/
def keyPart : Reader String := do
  blanks
  let part ← orElse shortString (takeWhile1 isBareKey)
  blanks
  return String.ofList part

/-- Takes a key. -/
def key : Reader KeyPath := do
  let first ← keyPart
  let more ← many do
    char '.'
    keyPart
  if more.length + 1 < maxKeyParts then return KeyPath.ofParts first more else failure

/-- Takes a key and its value. -/
def assignment (value : Reader Datum) : Reader (KeyPath × Datum) := do
  let k ← key
  char '='
  blanks
  let d ← value
  blanks
  return (k, d)

/-- Takes an element of an array, with what may stand around it. -/
def element (value : Reader Datum) : Reader Datum := do
  gap
  let d ← value
  gap
  return d

/-- Takes the elements of an array, the opening bracket taken; a comma behind the last is
allowed. -/
def elements (value : Reader Datum) : Reader (List Datum) := do
  match ← optional (element value) with
  | none =>
    gap
    char ']'
    return []
  | some first =>
    let more ← many do
      char ','
      element value
    let _ ← optional (char ',')
    gap
    char ']'
    return first :: more

/-- Takes the entries of an inline table, the opening brace taken. -/
def inlineEntries (value : Reader Datum) : Reader (List (KeyPath × Datum)) := do
  match ← optional (assignment value) with
  | none =>
    blanks
    char '\x7d'
    return []
  | some first =>
    let more ← many do
      char ','
      assignment value
    char '\x7d'
    return first :: more

/-- Takes a value; arrays and inline tables may be nested as deep as `nesting` says. -/
def value : (nesting : Nat) → Reader Datum
  | 0 => scalar
  | nesting + 1 => fun s =>
    match s with
    | '[' :: rest => (elements (value nesting)).map .array rest
    | '\x7b' :: rest =>
      match inlineEntries (value nesting) rest with
      | none => none
      | some (entries, rest) =>
        (Table.assignAll entries (.empty .defined)).map fun t =>
          (.table (Item.tableEntries t), rest)
    | _ => scalar s

/-- Takes a header. -/
def header : Reader Line := do
  char '['
  if (← peek) = some '[' then
    char '['
    let k ← key
    char ']'
    char ']'
    return .elementHeader k
  else
    let k ← key
    char ']'
    return .header k

/-- Takes a line that says something. -/
def statement : Reader Line := do
  let line ← orElse header do
    let (k, d) ← assignment (value maxNesting)
    return .assign k d
  lineEnd
  return line

/-- Takes a line that says nothing, up to and with its break. -/
def emptyLine : Reader Unit := do
  blanks
  let _ ← optional comment
  lineBreak

/-- Takes any line, with the blanks before it. -/
def line : Reader (Option Line) :=
  orElse (do emptyLine; return none) (do blanks; some <$> statement)

/-- Takes all lines of a document, a byte order mark before them allowed. -/
def lines : Reader (List Line) := do
  let _ ← optional (char '\ufeff')
  let found ← many line
  blanks
  let _ ← optional comment
  atEnd
  return found.filterMap id

end Reader

namespace Document

/-- Follows the lines of a document from the table that the last header named. -/
def follow (t : Table Item) (current : List String) : List Line → Option (Table Item)
  | [] => some t
  | .assign key d :: rest => do
    let t ← t.alter false (Table.assign key d) current
    follow t current rest
  | .header key :: rest => do
    let t ← t.define key
    follow t key.names rest
  | .elementHeader key :: rest => do
    let t ← t.defineElement key
    follow t key.names rest

/-- The data of a document, or none if the text is no document. -/
def read (text : String) : Option (List (String × Datum)) := do
  let (lines, _) ← Reader.lines text.toList
  let t ← follow (.empty .defined) [] lines
  return Item.tableEntries t

end Document

end TaggedTuple.Toml
