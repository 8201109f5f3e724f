import TaggedTuple.Diagnostic
import TaggedTuple.Ty

/-!
# Type mismatches

A mismatch says what is wrong and where: the path of member addresses leads from the compared types
down to the tuple or member at fault. It is empty when the compared types themselves are at fault.
-/

namespace TaggedTuple

/-- What is wrong at the place of a mismatch. -/
inductive MismatchKind where
  /-- The found type is not of the expected kind. -/
  | incompatible (expected found : Ty)
  /-- The numbers of positional members differ. -/
  | positionalArity (expected found : Nat)
  /-- The tag is not acceptable. -/
  | tagMismatch (expected found : Option Symbol)
  /-- An expected field is absent. -/
  | missingField (field : Symbol)
  /-- A field is present that is not expected. -/
  | extraField (field : Symbol)

/-- What is wrong, and where. -/
structure TypeMismatch where
  path : List TupleKey := []
  kind : MismatchKind

/-! ### Equality -/

/-- Equality of kinds of mismatches: types in them are compared as types. -/
@[simp]
def MismatchKind.equal : MismatchKind → MismatchKind → Bool
  | .incompatible expected found, .incompatible expected' found' =>
    expected == expected' && found == found'
  | .positionalArity expected found, .positionalArity expected' found' =>
    expected == expected' && found == found'
  | .tagMismatch expected found, .tagMismatch expected' found' =>
    expected == expected' && found == found'
  | .missingField field, .missingField field' => field == field'
  | .extraField field, .extraField field' => field == field'
  | _, _ => false

instance : BEq MismatchKind := ⟨MismatchKind.equal⟩

/-- The comparison of kinds, as it is written `==`. -/
@[simp]
theorem MismatchKind.beq_eq_equal (kind kind' : MismatchKind) :
    (kind == kind') = kind.equal kind' := rfl

/-- Equality of mismatches: the same path, and equal kinds. -/
def TypeMismatch.equal (m m' : TypeMismatch) : Bool := m.path == m'.path && m.kind == m'.kind

instance : BEq TypeMismatch := ⟨TypeMismatch.equal⟩

/-- Mismatches are equal when their paths are and their kinds are. -/
theorem TypeMismatch.beq_iff {m m' : TypeMismatch} :
    (m == m') = true ↔ m.path = m'.path ∧ (m.kind == m'.kind) = true := by
  show (m.path == m'.path && m.kind == m'.kind) = true ↔ _
  rw [Bool.and_eq_true, beq_iff_eq]

/-! ### Text -/

/-- A tag in a message, or the lack of one. -/
def describeTag (names : Symbol.Names) : Option Symbol → Option String
  | none => some "no tag"
  | some tag => (names tag).map fun name => "`" ++ name ++ "`"

namespace MismatchKind

/-- The fault in a few words, fields given by number. -/
def message : MismatchKind → String
  | .incompatible expected found =>
    "expected " ++ expected.kindName ++ ", found " ++ found.kindName
  | .positionalArity expected found =>
    "expected " ++ toString expected ++ " positional members, found " ++ toString found
  | .tagMismatch .. => "tags differ"
  | .missingField field => "missing field " ++ field.text
  | .extraField field => "unexpected field " ++ field.text

/-- The fault in a few words, with names. -/
def describe (names : Symbol.Names) : MismatchKind → Option String
  | .incompatible expected found => do
    return "expected `" ++ (← expected.render names) ++ "`, found `" ++ (← found.render names)
      ++ "`"
  | .positionalArity expected found =>
    some ("expected " ++ toString expected ++ " positional members, found " ++ toString found)
  | .tagMismatch expected found => do
    return "expected " ++ (← describeTag names expected) ++ ", found "
      ++ (← describeTag names found)
  | .missingField field => do return "missing field `" ++ (← names field) ++ "`"
  | .extraField field => do return "unexpected field `" ++ (← names field) ++ "`"

end MismatchKind

namespace TypeMismatch

/-- A mismatch of the compared types themselves. -/
def ofKind (kind : MismatchKind) : TypeMismatch := { kind }

/-- The same mismatch, seen from the tuple whose member is at fault. -/
def within (key : TupleKey) (m : TypeMismatch) : TypeMismatch := { m with path := key :: m.path }

/-- The mismatch in a few words, fields given by number. -/
def message (m : TypeMismatch) : String := "tuple type mismatch: " ++ m.kind.message

/-- A member address as a step of a path. -/
def renderStep (names : Symbol.Names) : TupleKey → Option String
  | .index i => some ("." ++ toString i)
  | .field f => (names f).map ("." ++ ·)

/-- The path as text, as in `.0.name.1`. -/
def renderPath (m : TypeMismatch) (names : Symbol.Names) : Option String :=
  (m.path.mapM (renderStep names)).map String.join

/-- The mismatch as a report. -/
def diagnose (m : TypeMismatch) (span : Span) (names : Symbol.Names) : Option Diagnostic := do
  let label ← m.kind.describe names
  let report := (Diagnostic.ofCode .tupleTypeMismatch).withMessage "mismatched tuple types"
    |>.withLabel span label
  if m.path.isEmpty then return report
  else return report.withNote ("at member `" ++ (← m.renderPath names) ++ "`")

end TypeMismatch

end TaggedTuple
