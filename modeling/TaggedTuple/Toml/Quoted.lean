import TaggedTuple.Toml.Text

/-!
# Writing strings

A string is written in the plainest form that can hold it: in double quotes if nothing in it needs
an escape, else in single quotes, else in a long form, and with escapes only if no other form will
do.
-/

namespace TaggedTuple.Toml

/-- The four forms of a string. -/
inductive QuoteForm where
  | basic
  | literal
  | longBasic
  | longLiteral
  deriving DecidableEq, Repr

/-- Whether a character can stand in no form without an escape. -/
def isControl (c : Char) : Bool := !isPlain c && c != '\n'

/-- The length of the longest run of a character, the run at hand being `current` long so far. -/
def longestRun (c : Char) (current : Nat) : List Char → Nat
  | [] => current
  | d :: rest =>
    if d = c then longestRun c (current + 1) rest else max current (longestRun c 0 rest)

/-- The form in which a string is written. -/
def QuoteForm.of (s : List Char) : QuoteForm :=
  let plain := !s.any isControl
  let doubles := longestRun '"' 0 s
  let singles := longestRun '\'' 0 s
  if plain && !s.contains '\\' && doubles == 0 && !s.contains '\n' then .basic
  else if plain && singles == 0 && !s.contains '\n' then .literal
  else if plain && !s.contains '\\' && decide (doubles ≤ 2) then .longBasic
  else if plain && decide (singles ≤ 2) then .longLiteral
  else if s.contains '\n' then .longBasic
  else .basic

/-- A hexadecimal digit in upper case. -/
def hexDigit (n : Nat) : Char :=
  if n < 10 then Char.ofNat ('0'.toNat + n) else Char.ofNat ('A'.toNat + (n - 10))

/-- The escape of a character that must not stand in double quotes, quotes and line feeds apart. -/
def escape (c : Char) : List Char :=
  if c = '\\' then ['\\', '\\']
  else if c = '\x08' then ['\\', 'b']
  else if c = '\t' then ['\\', 't']
  else if c = '\x0c' then ['\\', 'f']
  else if c = '\x0d' then ['\\', 'r']
  else if isPlain c then [c]
  else ['\\', 'u', '0', '0', hexDigit (c.toNat / 16), hexDigit (c.toNat % 16)]

/-- The characters between double quotes. -/
def basicText : List Char → List Char
  | [] => []
  | c :: rest =>
    if c = '"' then '\\' :: '"' :: basicText rest
    else if c = '\n' then '\\' :: 'n' :: basicText rest
    else escape c ++ basicText rest

/-- The characters between three double quotes; `run` quotes stand directly before. -/
def longBasicText (run : Nat) : List Char → List Char
  | [] => []
  | c :: rest =>
    if c = '"' then
      if run = 2 then '\\' :: '"' :: longBasicText 0 rest else '"' :: longBasicText (run + 1) rest
    else if c = '\n' then '\n' :: longBasicText 0 rest
    else escape c ++ longBasicText 0 rest

/-- A string in quotes. -/
def quote (s : List Char) : List Char :=
  let opening := if s.contains '\n' then ['\n'] else []
  match QuoteForm.of s with
  | .basic => '"' :: basicText s ++ ['"']
  | .literal => '\'' :: s ++ ['\'']
  | .longBasic => ['"', '"', '"'] ++ opening ++ longBasicText 0 s ++ ['"', '"', '"']
  | .longLiteral => ['\'', '\'', '\''] ++ opening ++ s ++ ['\'', '\'', '\'']

end TaggedTuple.Toml
