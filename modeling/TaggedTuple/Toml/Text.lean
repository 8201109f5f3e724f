import TaggedTuple.Toml.Reader

/-!
# Strings in a document

There are four kinds: in double quotes with escapes, in single quotes without, and both in a form of
three quotes that may run over several lines. In the long forms a line break right behind the
opening quotes is dropped, and up to two quotes may stand next to the closing ones. Every line break
is read as a line feed.
-/

namespace TaggedTuple.Toml

/-- The value of a hexadecimal digit. -/
def hexValue? (c : Char) : Option Nat :=
  if '0' ≤ c ∧ c ≤ '9' then some (c.toNat - '0'.toNat)
  else if 'a' ≤ c ∧ c ≤ 'f' then some (c.toNat - 'a'.toNat + 10)
  else if 'A' ≤ c ∧ c ≤ 'F' then some (c.toNat - 'A'.toNat + 10)
  else none

/-- The number that hexadecimal digits write. -/
def hexNumber? (digits : List Char) : Option Nat :=
  digits.foldlM (fun n c => (hexValue? c).map (16 * n + ·)) 0

/-- The character of a scalar value; surrogates and numbers that are too large have none. -/
def scalarChar? (n : Nat) : Option Char :=
  if h : n.isValidChar then some (Char.ofNatAux n h) else none

/-- The character that a letter stands for behind a backslash. -/
def escape? : Char → Option Char
  | 'b' => some '\x08'
  | 't' => some '\t'
  | 'n' => some '\n'
  | 'f' => some '\x0c'
  | 'r' => some '\x0d'
  | '"' => some '"'
  | '\\' => some '\\'
  | _ => none

/-- Puts a character in front of what a reader found. -/
def prepend (c : Char) : Option (List Char × List Char) → Option (List Char × List Char) :=
  Option.map fun (cs, rest) => (c :: cs, rest)

/-- Reads a string in double quotes, the opening one taken. -/
def basicBody : List Char → Option (List Char × List Char)
  | [] => none
  | '"' :: rest => some ([], rest)
  | '\\' :: 'u' :: a :: b :: c :: d :: rest => do
    let e ← scalarChar? (← hexNumber? [a, b, c, d])
    prepend e (basicBody rest)
  | '\\' :: 'U' :: a :: b :: c :: d :: e :: f :: g :: h :: rest => do
    let e ← scalarChar? (← hexNumber? [a, b, c, d, e, f, g, h])
    prepend e (basicBody rest)
  | '\\' :: c :: rest => do
    let e ← escape? c
    prepend e (basicBody rest)
  | c :: rest => if isPlain c && c != '\\' then prepend c (basicBody rest) else none

/-- Reads a string in single quotes, the opening one taken. -/
def literalBody : List Char → Option (List Char × List Char)
  | [] => none
  | '\'' :: rest => some ([], rest)
  | c :: rest => if isPlain c then prepend c (literalBody rest) else none

/-- Whether a text goes on, behind blanks, with a line break. -/
def breaksLine (s : List Char) : Bool :=
  match s.dropWhile isBlank with
  | '\n' :: _ => true
  | '\x0d' :: '\n' :: _ => true
  | _ => false

/--
Reads a string in three double quotes, the opening ones taken. Behind a backslash at the end of a
line, blanks and line breaks are dropped; `dropping` says that this is going on.
-/
def longBasicBody (dropping : Bool) : List Char → Option (List Char × List Char)
  | [] => none
  | '"' :: '"' :: '"' :: '"' :: '"' :: rest => some (['"', '"'], rest)
  | '"' :: '"' :: '"' :: '"' :: rest => some (['"'], rest)
  | '"' :: '"' :: '"' :: rest => some ([], rest)
  | '\\' :: 'u' :: a :: b :: c :: d :: rest => do
    let e ← scalarChar? (← hexNumber? [a, b, c, d])
    prepend e (longBasicBody false rest)
  | '\\' :: 'U' :: a :: b :: c :: d :: e :: f :: g :: h :: rest => do
    let e ← scalarChar? (← hexNumber? [a, b, c, d, e, f, g, h])
    prepend e (longBasicBody false rest)
  | '\\' :: c :: rest =>
    if breaksLine (c :: rest) then longBasicBody true (c :: rest)
    else do
      let e ← escape? c
      prepend e (longBasicBody false rest)
  | '\x0d' :: '\n' :: rest =>
    if dropping then longBasicBody true rest else prepend '\n' (longBasicBody false rest)
  | c :: rest =>
    if dropping && (isBlank c || c == '\n') then longBasicBody true rest
    else if c == '\n' || (isPlain c && c != '\\') then prepend c (longBasicBody false rest)
    else none

/-- Reads a string in three single quotes, the opening ones taken. -/
def longLiteralBody : List Char → Option (List Char × List Char)
  | [] => none
  | '\'' :: '\'' :: '\'' :: '\'' :: '\'' :: rest => some (['\'', '\''], rest)
  | '\'' :: '\'' :: '\'' :: '\'' :: rest => some (['\''], rest)
  | '\'' :: '\'' :: '\'' :: rest => some ([], rest)
  | '\x0d' :: '\n' :: rest => prepend '\n' (longLiteralBody rest)
  | c :: rest => if c == '\n' || isPlain c then prepend c (longLiteralBody rest) else none

/-- Drops a line break at the front. -/
def dropLineBreak : List Char → List Char
  | '\n' :: rest => rest
  | '\x0d' :: '\n' :: rest => rest
  | s => s

namespace Reader

/-- Takes a string of one line, as a key may be written. -/
def shortString : Reader (List Char)
  | '"' :: rest => basicBody rest
  | '\'' :: rest => literalBody rest
  | _ => none

/-- Takes a string of any kind. -/
def string : Reader (List Char)
  | '"' :: '"' :: '"' :: rest => longBasicBody false (dropLineBreak rest)
  | '\'' :: '\'' :: '\'' :: rest => longLiteralBody (dropLineBreak rest)
  | s => shortString s

end Reader

end TaggedTuple.Toml
