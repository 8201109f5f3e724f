import TaggedTuple.Tuple.Error
import TaggedTuple.Ty.Mismatch

/-!
# Pattern errors and match failures

A pattern error means that a pattern can never be used as it is written. A match failure is the
ordinary outcome that a value does not fit a pattern.
-/

namespace TaggedTuple

/-- Why a pattern is malformed. -/
inductive PatternError where
  /-- A second rest marker among the positional parts. -/
  | multipleRest (first second : Nat)
  /-- A capture could not be built. -/
  | capture (inner : TupleError)
  deriving DecidableEq, Repr

/-- Why a value does not fit a pattern. -/
inductive MatchFailure where
  /-- The number of positional members; with a rest marker `expected` is the least number. -/
  | arityMismatch (expected found : Nat) (hasRest : Bool)
  /-- The tag is not the required one. -/
  | tagMismatch (expected found : Option Symbol)
  /-- The value has no such field. -/
  | missingField (field : Symbol)
  /-- A tuple pattern met a value that is no tuple. -/
  | notATuple
  /-- A literal is not equal to the value. -/
  | literalMismatch
  deriving DecidableEq, Repr

namespace PatternError

/-- The code that an error is filed under. -/
def code : PatternError → ErrorCode
  | .multipleRest .. => .multipleRest
  | .capture _ => .internalError

/-- The error in one line, fields given by number. -/
def message : PatternError → String
  | .multipleRest first second =>
    "positional rest marker at " ++ toString second ++ " follows another at " ++ toString first
  | .capture inner => "failed to build rest capture: " ++ inner.message

/-- The error as a report, fields given by name. -/
def diagnose (e : PatternError) (span : Span) (names : Symbol.Names) : Option Diagnostic :=
  let report := Diagnostic.ofCode e.code
  match e with
  | .multipleRest first second =>
    report.withMessage "only one `...` rest marker is allowed in a tuple pattern"
      |>.withLabel span ("second rest marker at position " ++ toString second)
      |>.withNote ("the first rest marker is at position " ++ toString first)
  | .capture inner => do
    let cause ← inner.diagnose span names
    return report.withMessage "internal error while binding a rest pattern"
      |>.withLabel span "in this pattern"
      |>.withNote cause.message

end PatternError

namespace MatchFailure

/-- The failure in a few words, with names. -/
def describe (names : Symbol.Names) : MatchFailure → Option String
  | .arityMismatch expected found hasRest =>
    some ("the pattern needs " ++ (if hasRest then "at least " else "") ++ toString expected
      ++ " positional values, the value has " ++ toString found)
  | .tagMismatch expected found => do
    return "expected " ++ (← describeTag names expected) ++ ", found "
      ++ (← describeTag names found)
  | .missingField field => do return "the value has no field `" ++ (← names field) ++ "`"
  | .notATuple => some "a tuple pattern requires a tuple value"
  | .literalMismatch => some "the literal is not equal to the value"

/-- The failure as a report on a pattern that had to match. -/
def diagnose (e : MatchFailure) (span : Span) (names : Symbol.Names) : Option Diagnostic := do
  let note ← e.describe names
  return (Diagnostic.ofCode .refutablePattern).withMessage "pattern does not match the value"
    |>.withLabel span "refutable pattern"
    |>.withNote note

end MatchFailure

end TaggedTuple
