import TaggedTuple.Diagnostic
import TaggedTuple.Symbol

/-!
# Errors of construction and access

What can go wrong when a layout or a tuple is built, or when a member is asked for. `message` names
fields by number, `diagnose` by name; a name that the name source does not know makes the whole
report `none`.
-/

namespace TaggedTuple

/-- Why a layout or a tuple could not be built or read. -/
inductive TupleError where
  /-- A field was declared or supplied twice. -/
  | duplicateField (field : Symbol)
  /-- The number of positional values differs from the layout's. -/
  | arityMismatch (expected found : Nat)
  /-- The layout has no such field. -/
  | unknownField (field : Symbol)
  /-- A field of the layout got no value. -/
  | missingField (field : Symbol)
  /-- There are only `length` positional members. -/
  | indexOutOfRange (index length : Nat)
  deriving DecidableEq, Repr

namespace TupleError

/-- The code that an error is filed under. -/
def code : TupleError → ErrorCode
  | .duplicateField _ => .duplicateField
  | .arityMismatch .. => .positionalArity
  | .unknownField _ => .unknownField
  | .missingField _ => .missingField
  | .indexOutOfRange .. => .indexOutOfRange

/-- The error in one line, fields given by number. -/
def message : TupleError → String
  | .duplicateField field => "duplicate field " ++ field.text
  | .arityMismatch expected found =>
    "expected " ++ toString expected ++ " positional values, found " ++ toString found
  | .unknownField field => "unknown field " ++ field.text
  | .missingField field => "missing value for field " ++ field.text
  | .indexOutOfRange index length =>
    "index " ++ toString index ++ " out of range for " ++ toString length ++ " positional values"

/-- The ending of a counted noun. -/
def pluralEnding (n : Nat) : String := if n = 1 then "" else "s"

/-- The error as a report, fields given by name. -/
def diagnose (e : TupleError) (span : Span) (names : Symbol.Names) : Option Diagnostic :=
  let report := Diagnostic.ofCode e.code
  match e with
  | .duplicateField field => do
    let name ← names field
    return report.withMessage ("field `" ++ name ++ "` is specified more than once")
      |>.withLabel span ("duplicate `" ++ name ++ ":`")
      |>.withSuggestion ("remove one of the `" ++ name ++ ":` entries")
  | .arityMismatch expected found =>
    report.withMessage ("wrong number of positional values: expected " ++ toString expected
        ++ ", found " ++ toString found)
      |>.withLabel span
        ("expected " ++ toString expected ++ " positional value" ++ pluralEnding expected)
  | .unknownField field => do
    let name ← names field
    return report.withMessage ("no field `" ++ name ++ "` in this tuple")
      |>.withLabel span "unknown field"
  | .missingField field => do
    let name ← names field
    return report.withMessage ("missing value for field `" ++ name ++ "`")
      |>.withLabel span ("`" ++ name ++ ":` not provided")
      |>.withSuggestion ("add `" ++ name ++ ": <value>`")
  | .indexOutOfRange index length =>
    report.withMessage ("index " ++ toString index ++ " is out of range")
      |>.withLabel span "positional index"
      |>.withNote ("the tuple has " ++ toString length ++ " positional value" ++ pluralEnding length
        ++ "; named fields are not reachable by index")

end TupleError

end TaggedTuple
