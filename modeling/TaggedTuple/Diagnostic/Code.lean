/-!
# Error codes

Every report carries a code. Its first digit names the phase: 2 for construction and types,
3 for patterns, 9 for faults of the compiler itself.
-/

namespace TaggedTuple

/-- The cause a report is filed under. -/
inductive ErrorCode where
  | duplicateField
  | positionalArity
  | unknownField
  | missingField
  | indexOutOfRange
  | tupleTypeMismatch
  | multipleRest
  | refutablePattern
  | internalError
  deriving DecidableEq, Repr, Inhabited

namespace ErrorCode

/-- All codes, in the order of their numbers. -/
def all : List ErrorCode :=
  [.duplicateField, .positionalArity, .unknownField, .missingField, .indexOutOfRange,
    .tupleTypeMismatch, .multipleRest, .refutablePattern, .internalError]

/-- The number of a code as it is printed. -/
def text : ErrorCode → String
  | .duplicateField => "E2101"
  | .positionalArity => "E2102"
  | .unknownField => "E2103"
  | .missingField => "E2104"
  | .indexOutOfRange => "E2105"
  | .tupleTypeMismatch => "E2106"
  | .multipleRest => "E3101"
  | .refutablePattern => "E3102"
  | .internalError => "E9001"

/-- What a code means, in one line. -/
def description : ErrorCode → String
  | .duplicateField => "a named field appears more than once"
  | .positionalArity => "wrong number of positional members"
  | .unknownField => "field is not part of the tuple's layout"
  | .missingField => "a field of the layout has no value"
  | .indexOutOfRange => "positional index out of range"
  | .tupleTypeMismatch => "tuple types are not compatible"
  | .multipleRest => "a pattern may contain at most one `...` rest marker"
  | .refutablePattern => "refutable pattern did not match"
  | .internalError => "internal compiler error"

/-- Whether the code is about construction or types. -/
def isTypeError : ErrorCode → Bool
  | .duplicateField | .positionalArity | .unknownField | .missingField | .indexOutOfRange
  | .tupleTypeMismatch => true
  | _ => false

/-- Whether the code is about patterns. -/
def isPatternError : ErrorCode → Bool
  | .multipleRest | .refutablePattern => true
  | _ => false

/-- Whether the code is about the compiler itself. -/
def isInternal : ErrorCode → Bool
  | .internalError => true
  | _ => false

/--
The code with the given text, in either case. Codes are written with ASCII letters and digits,
and no other character has one of them as its upper case, so ASCII case is all that matters.
-/
def parse? (s : String) : Option ErrorCode :=
  all.find? fun code => code.text.toList == s.toList.map Char.toUpper

/-- Every code is listed. -/
theorem mem_all (code : ErrorCode) : code ∈ all := by
  cases code <;> decide

end ErrorCode

end TaggedTuple
