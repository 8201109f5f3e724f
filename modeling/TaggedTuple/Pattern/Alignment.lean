import TaggedTuple.Pattern

/-!
# How a tuple pattern lines up with a layout

The checks that look at the outer shape alone: the tag, and how the positional parts line up with
`count` values. Parts before the rest marker take the leading values, parts behind it the trailing
ones, and the marker stands for the values between.
-/

namespace TaggedTuple

/-- How positional parts line up with values. -/
structure Alignment where
  /-- The number of parts before the rest marker, or of all parts if there is none. -/
  before : Nat
  /-- The first value that the rest marker stands for. -/
  restStart : Nat
  /-- The first value behind the rest. -/
  restStop : Nat
  deriving DecidableEq, Repr

namespace Alignment

/-- The index of the value for the part at position `i`; the rest marker has none. -/
def valueIndex? (a : Alignment) (i : Nat) : Option Nat :=
  if i < a.before then some i
  else if i = a.before then none
  else some (a.restStop + (i - a.before - 1))

end Alignment

namespace TuplePattern

variable {π : Type}

/-- Checks the tag. -/
def checkTag (p : TuplePattern π) (found : Option Symbol) : Except MatchFailure Unit :=
  match p.tag with
  | none => .ok ()
  | some requirement =>
    if requirement.accepts found then .ok ()
    else .error (.tagMismatch requirement.expected found)

/-- Lines the positional parts up with a number of values. -/
def align (p : TuplePattern π) (count : Nat) : Except MatchFailure Alignment :=
  match p.restPosition? with
  | none =>
    if p.fixedCount = count then .ok ⟨p.fixedCount, count, count⟩
    else .error (.arityMismatch p.fixedCount count false)
  | some before =>
    if p.fixedCount ≤ count then .ok ⟨before, before, before + (count - p.fixedCount)⟩
    else .error (.arityMismatch p.fixedCount count true)

/-- The fields of a layout that the pattern does not mention, in the order of declaration. -/
def unmentioned (p : TuplePattern π) (l : Layout) : List Symbol :=
  l.fields.filter fun f => !p.fields.any fun (key, _) => key == f

end TuplePattern

end TaggedTuple
