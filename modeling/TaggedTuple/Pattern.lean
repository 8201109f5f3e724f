import TaggedTuple.Pattern.Error

/-!
# Patterns

A pattern takes a value apart. A tuple pattern such as `Tag(p, ...rest, x:, y: q, ...others)` may
require a tag, has positional sub-patterns with at most one rest marker among them, sub-patterns for
named fields, and may capture the fields that it does not mention.

The parts of a tuple pattern are generic in the sub-patterns, so that a function on patterns maps
the sub-patterns of a tuple pattern first and then treats the tuple pattern as a whole.
-/

namespace TaggedTuple

/-- A constant in a pattern. -/
inductive Literal where
  | int (n : Int64)
  | str (s : String)
  deriving DecidableEq, Repr

/-- What a tuple pattern asks of the tag. -/
inductive TagRequirement where
  /-- The value has this tag. -/
  | tag (s : Symbol)
  /-- The value has no tag. -/
  | untagged
  deriving DecidableEq, Repr

namespace TagRequirement

/-- Whether a tag meets the requirement. -/
def accepts : TagRequirement → Option Symbol → Bool
  | .tag s, found => found == some s
  | .untagged, found => found.isNone

/-- The tag that is asked for, if any. -/
def expected : TagRequirement → Option Symbol
  | .tag s => some s
  | .untagged => none

end TagRequirement

/-- A positional part of a tuple pattern. -/
inductive PositionalPattern (π : Type) where
  | sub (p : π)
  /-- The rest marker, which stands for the values that the other parts leave over. -/
  | rest (name : Option Symbol)

/-- What a tuple pattern does with a field. -/
inductive FieldPattern (π : Type) where
  /-- Binds the value to the name of the field. -/
  | shorthand
  | sub (p : π)

/-- A pattern for tuples. -/
structure TuplePattern (π : Type) where
  tag : Option TagRequirement := none
  positional : List (PositionalPattern π) := []
  fields : List (Symbol × FieldPattern π) := []
  /-- The name for the fields that the pattern does not mention. -/
  namedRest : Option Symbol := none

/-- A pattern for values. -/
inductive Pattern where
  | wildcard
  /-- Binds the whole value. -/
  | bind (name : Symbol)
  | literal (l : Literal)
  | tuple (p : TuplePattern Pattern)

namespace PositionalPattern

variable {π ρ : Type}

/-- Applies a function to the sub-pattern. -/
def map (g : π → ρ) : PositionalPattern π → PositionalPattern ρ
  | .sub p => .sub (g p)
  | .rest name => .rest name

/-- Whether the part is the rest marker. -/
def isRest : PositionalPattern π → Bool
  | .sub _ => false
  | .rest _ => true

end PositionalPattern

namespace FieldPattern

variable {π ρ : Type}

/-- Applies a function to the sub-pattern. -/
def map (g : π → ρ) : FieldPattern π → FieldPattern ρ
  | .shorthand => .shorthand
  | .sub p => .sub (g p)

end FieldPattern

namespace TuplePattern

variable {π ρ : Type}

/-- Applies a function to each sub-pattern. -/
def map (g : π → ρ) (p : TuplePattern π) : TuplePattern ρ :=
  { tag := p.tag, positional := p.positional.map (·.map g),
    fields := p.fields.map fun (key, f) => (key, f.map g), namedRest := p.namedRest }

/-- The pattern that also requires a tag. -/
def tagged (p : TuplePattern π) (s : Symbol) : TuplePattern π := { p with tag := some (.tag s) }

/-- The pattern that also requires that there is no tag. -/
def untagged (p : TuplePattern π) : TuplePattern π := { p with tag := some .untagged }

/-- Appends a positional part. -/
def addPositional (p : TuplePattern π) (part : PositionalPattern π) : TuplePattern π :=
  { p with positional := p.positional ++ [part] }

/-- Appends a part for a field. -/
def addField (p : TuplePattern π) (key : Symbol) (part : FieldPattern π) : TuplePattern π :=
  { p with fields := p.fields ++ [(key, part)] }

/-- Captures the fields that are not mentioned. -/
def withNamedRest (p : TuplePattern π) (name : Symbol) : TuplePattern π :=
  { p with namedRest := some name }

/-- The position of the first rest marker. -/
def restPosition? (p : TuplePattern π) : Option Nat := p.positional.findIdx? (·.isRest)

/-- The number of positional parts that are not the rest marker. -/
def fixedCount (p : TuplePattern π) : Nat := p.positional.countP (!·.isRest)

/-! ### Well-formed patterns -/

/-- Checks positional parts; `first` is the position of an earlier marker, `i` that of the head. -/
def validatePositional (first : Option Nat) (i : Nat) :
    List (PositionalPattern (Except PatternError Unit)) → Except PatternError Unit
  | [] => .ok ()
  | .sub outcome :: rest => do
    outcome
    validatePositional first (i + 1) rest
  | .rest _ :: rest =>
    match first with
    | some first => .error (.multipleRest first i)
    | none => validatePositional (some i) (i + 1) rest

/-- Checks the parts for fields. -/
def validateFields :
    List (Symbol × FieldPattern (Except PatternError Unit)) → Except PatternError Unit
  | [] => .ok ()
  | (_, .shorthand) :: rest => validateFields rest
  | (_, .sub outcome) :: rest => do
    outcome
    validateFields rest

/-- Checks a tuple pattern whose sub-patterns have been checked. -/
def validateParts (p : TuplePattern (Except PatternError Unit)) : Except PatternError Unit := do
  validatePositional none 0 p.positional
  validateFields p.fields

end TuplePattern

namespace Pattern

mutual

/-- Checks that no tuple pattern at any depth has two rest markers; the second is the error. -/
def validate : Pattern → Except PatternError Unit
  | .wildcard => .ok ()
  | .bind _ => .ok ()
  | .literal _ => .ok ()
  | .tuple p => (validateMembers p).validateParts

/-- Checks the sub-patterns of a tuple pattern. -/
def validateMembers : TuplePattern Pattern → TuplePattern (Except PatternError Unit)
  | ⟨tag, positional, fields, namedRest⟩ =>
    ⟨tag, validateEachPositional positional, validateEachField fields, namedRest⟩

/-- Checks the sub-patterns of positional parts. -/
def validateEachPositional :
    List (PositionalPattern Pattern) → List (PositionalPattern (Except PatternError Unit))
  | [] => []
  | .sub p :: rest => .sub p.validate :: validateEachPositional rest
  | .rest name :: rest => .rest name :: validateEachPositional rest

/-- Checks the sub-patterns of parts for fields. -/
def validateEachField :
    List (Symbol × FieldPattern Pattern) →
      List (Symbol × FieldPattern (Except PatternError Unit))
  | [] => []
  | (key, .shorthand) :: rest => (key, .shorthand) :: validateEachField rest
  | (key, .sub p) :: rest => (key, .sub p.validate) :: validateEachField rest

end

/-- The validations of the positional parts, as a map. -/
theorem validateEachPositional_eq_map (parts : List (PositionalPattern Pattern)) :
    validateEachPositional parts = parts.map (·.map validate) := by
  induction parts with
  | nil => rfl
  | cons part rest ih =>
    cases part <;> rw [validateEachPositional, ih, List.map_cons] <;> rfl

/-- The validations of the parts for fields, as a map. -/
theorem validateEachField_eq_map (parts : List (Symbol × FieldPattern Pattern)) :
    validateEachField parts = parts.map fun (key, f) => (key, f.map validate) := by
  induction parts with
  | nil => rfl
  | cons part rest ih =>
    obtain ⟨key, part⟩ := part
    cases part <;> rw [validateEachField, ih, List.map_cons] <;> rfl

/-- A tuple pattern is validated part by part. -/
theorem validate_tuple (p : TuplePattern Pattern) :
    validate (.tuple p) = (p.map validate).validateParts := by
  obtain ⟨tag, positional, fields, namedRest⟩ := p
  rw [validate, validateMembers, validateEachPositional_eq_map, validateEachField_eq_map]
  rfl

end Pattern

/-- Checks that no tuple pattern at any depth has two rest markers. -/
def TuplePattern.validate (p : TuplePattern Pattern) : Except PatternError Unit :=
  (p.map Pattern.validate).validateParts

end TaggedTuple
