/-!
# Readers

A reader takes something off the front of a text and leaves the rest, or fails. Texts are lists of
characters. Readers are put together as state-passing computations; `many` repeats one for as long
as it takes something off.
-/

namespace TaggedTuple.Toml

/-- Takes something off the front of a text. -/
abbrev Reader (α : Type) := StateT (List Char) Option α

namespace Reader

variable {α β : Type}

/-- Takes one given character. -/
def char (c : Char) : Reader Unit
  | d :: rest => if d = c then some ((), rest) else none
  | [] => none

/-- Takes one character that satisfies a test. -/
def satisfy (p : Char → Bool) : Reader Char
  | c :: rest => if p c then some (c, rest) else none
  | [] => none

/-- Takes the given characters. -/
def chars : List Char → Reader Unit
  | [] => pure ()
  | c :: cs => do
    char c
    chars cs

/-- Takes characters for as long as they satisfy a test. -/
def takeWhile (p : Char → Bool) : Reader (List Char) :=
  fun s => some (s.takeWhile p, s.dropWhile p)

/-- Takes one or more characters that satisfy a test. -/
def takeWhile1 (p : Char → Bool) : Reader (List Char) := do
  let first ← satisfy p
  let more ← takeWhile p
  return first :: more

/-- Takes a number of characters that satisfy a test. -/
def exactly (p : Char → Bool) : (count : Nat) → Reader (List Char)
  | 0 => pure []
  | count + 1 => do
    let first ← satisfy p
    let more ← exactly p count
    return first :: more

/-- Takes what the reader takes, or nothing if it fails. -/
def optional (r : Reader α) : Reader (Option α) := fun s =>
  match r s with
  | some (a, rest) => some (some a, rest)
  | none => some (none, s)

/-- Takes what the first reader takes, or what the second one takes if it fails. -/
def orElse (r q : Reader α) : Reader α := fun s =>
  match r s with
  | some result => some result
  | none => q s

/-- Nothing is left. -/
def atEnd : Reader Unit
  | [] => some ((), [])
  | _ :: _ => none

/-- Looks at the next character without taking it. -/
def peek : Reader (Option Char) := fun s => some (s.head?, s)

/-- Repeats a reader at most `fuel` times, until it fails or takes nothing. -/
def manyUpTo (r : Reader α) : (fuel : Nat) → List Char → List α × List Char
  | 0, s => ([], s)
  | fuel + 1, s =>
    match r s with
    | none => ([], s)
    | some (a, rest) =>
      if rest.length < s.length then
        let (as, rest) := manyUpTo r fuel rest
        (a :: as, rest)
      else ([], s)

/-- Repeats a reader until it fails or takes nothing. -/
def many (r : Reader α) : Reader (List α) := fun s => some (manyUpTo r s.length s)

end Reader

/-! ### Blanks, comments and line ends -/

/-- Whether a character separates words on a line. -/
def isBlank (c : Char) : Bool := c == ' ' || c == '\t'

/-- Whether a character may stand in a comment: a tab, or anything but control characters. -/
def isPlain (c : Char) : Bool := c == '\t' || (decide (' ' ≤ c) && c != '\x7f')

namespace Reader

/-- Takes blanks. -/
def blanks : Reader Unit := fun s => some ((), s.dropWhile isBlank)

/-- Takes one line break. -/
def lineBreak : Reader Unit
  | '\n' :: rest => some ((), rest)
  | '\x0d' :: '\n' :: rest => some ((), rest)
  | _ => none

/-- Takes a comment up to the end of its line. -/
def comment : Reader Unit := do
  char '#'
  let _ ← takeWhile isPlain

/-- Takes the end of a line that has nothing more to say: blanks, a comment, and the break or the
end of the text. -/
def lineEnd : Reader Unit := do
  blanks
  let _ ← optional comment
  orElse lineBreak atEnd

/-- Takes blanks, line breaks and whole comment lines, as they may stand inside an array. -/
def skipGap (inComment : Bool) : List Char → Option (List Char)
  | [] => if inComment then none else some []
  | c :: rest =>
    if c = '\n' then skipGap false rest
    else if c = '\x0d' then if rest.head? = some '\n' then skipGap false rest else none
    else if inComment then if isPlain c then skipGap true rest else none
    else if isBlank c then skipGap false rest
    else if c = '#' then skipGap true rest
    else some (c :: rest)

/-- Takes what may stand between the parts of an array. -/
def gap : Reader Unit := fun s => (skipGap false s).map fun rest => ((), rest)

end Reader

end TaggedTuple.Toml
