import TaggedTuple.Ty.Mismatch
import TaggedTuple.Ty.Policy

/-!
# Subtyping and equivalence

Scalar types are related to themselves only. `Unknown` is related to everything both ways and `Void`
is a subtype of everything. A union is a subtype of `b` when each member is, and a supertype of `a`
when some member is; a union on the left is taken apart first. Tuple types are related member by
member: `checkTuple` and `checkSameTuple` list the conditions in the order in which they are
checked, and the first one that fails is reported.

Both relations recurse on the left type. The members of a left tuple are turned into checks on a
right type first, so that the rules for tuples are functions of those checks; `Against` adds the
rules that look at the right type alone.
-/

namespace TaggedTuple

/-- The outcome of a comparison: the first mismatch, if any. -/
abbrev TypeCheck := Except TypeMismatch Unit

namespace Ty

/-- Fails with a mismatch of the compared types themselves. -/
def mismatch (kind : MismatchKind) : TypeCheck := .error (.ofKind kind)

/-- The outcome for a member, seen from its tuple. -/
def checkMember (key : TupleKey) (outcome : TypeCheck) : TypeCheck :=
  outcome.mapError (TypeMismatch.within key)

/-! ### The rules for tuples -/

/-- The counts of positional members are equal. -/
def checkArity {α β : Type} (found : Tuple α) (expected : Tuple β) : TypeCheck :=
  if found.arity = expected.arity then .ok ()
  else mismatch (.positionalArity expected.arity found.arity)

/-- The checks hold of the members one by one, as far as both go; `i` is the index of the first. -/
def checkPositional (i : Nat) : List (Ty → TypeCheck) → List Ty → TypeCheck
  | check :: checks, member :: members => do
    checkMember (.index i) (check member)
    checkPositional (i + 1) checks members
  | _, _ => .ok ()

/-- The first field of `a`, in ascending order, that `b` lacks. -/
def extraField? (a b : Layout) : Option Symbol := a.index.symbols.find? fun f => !b.hasField f

/-- Each expected field is present, and its check holds of the expected member. -/
def checkFields (found : Tuple (Ty → TypeCheck)) : List (Symbol × Ty) → TypeCheck
  | [] => .ok ()
  | (field, expected) :: rest => do
    match found.field? field with
    | none => mismatch (.missingField field)
    | some check => checkMember (.field field) (check expected)
    checkFields found rest

/-- The check of each field that is present holds of the expected member. -/
def checkPresentFields (found : Tuple (Ty → TypeCheck)) : List (Symbol × Ty) → TypeCheck
  | [] => .ok ()
  | (field, expected) :: rest => do
    match found.field? field with
    | none => .ok ()
    | some check => checkMember (.field field) (check expected)
    checkPresentFields found rest

/-- No field is present that is not expected, unless the policy allows it. -/
def checkWidth (width : WidthPolicy) (found expected : Layout) : TypeCheck :=
  match width with
  | .extensible => .ok ()
  | .exact =>
    match extraField? found expected with
    | some field => mismatch (.extraField field)
    | none => .ok ()

/-- Subtyping of tuple types, the members of the left one given as checks. -/
def checkTuple (policy : TuplePolicy) (sub : Tuple (Ty → TypeCheck)) (sup : Tuple Ty) :
    TypeCheck := do
  checkArity sub sup
  if policy.tags.accepts sub.tag sup.tag then .ok ()
  else mismatch (.tagMismatch sup.tag sub.tag)
  checkPositional 0 sub.positional sup.positional
  checkFields sub sup.namedAscending
  checkWidth policy.width sub.layout sup.layout

/-- Equivalence of tuple types, the members of the left one given as checks. -/
def checkSameTuple (a : Tuple (Ty → TypeCheck)) (b : Tuple Ty) : TypeCheck := do
  checkArity a b
  if a.tag = b.tag then .ok () else mismatch (.tagMismatch b.tag a.tag)
  match extraField? b.layout a.layout with
  | some field => mismatch (.missingField field)
  | none => .ok ()
  match extraField? a.layout b.layout with
  | some field => mismatch (.extraField field)
  | none => .ok ()
  checkPositional 0 a.positional b.positional
  checkPresentFields a b.namedAscending

/-! ### Subtyping -/

mutual

/--
Compares a type that is no union with a right type: `Unknown` accepts it, a union accepts it when
some member does, and for any other right type `check` decides.
-/
def against (sub : Ty) (check : Ty → TypeCheck) : Ty → TypeCheck
  | .unknown => .ok ()
  | .union members =>
    if someAgainst sub check members then .ok ()
    else mismatch (.incompatible (.union members) sub)
  | .void => check .void
  | .scalar s => check (.scalar s)
  | .tuple t => check (.tuple t)

/-- Whether some type of a list accepts a type that is no union. -/
def someAgainst (sub : Ty) (check : Ty → TypeCheck) : List Ty → Bool
  | [] => false
  | member :: members => (against sub check member).isOk || someAgainst sub check members

end

mutual

/-- Whether `sub` may stand where `sup` is expected; the first mismatch, if not. -/
def checkSubtype (policy : TuplePolicy) : (sub sup : Ty) → TypeCheck
  | .unknown, _ => .ok ()
  | .void, _ => .ok ()
  | .scalar s, sup =>
    against (.scalar s) (fun b =>
      if b.scalar? = some s then .ok () else mismatch (.incompatible b (.scalar s))) sup
  | .tuple t, sup =>
    against (.tuple t) (fun b =>
      match b.tuple? with
      | some u => checkTuple policy (subtypeMembers policy t) u
      | none => mismatch (.incompatible b (.tuple t))) sup
  | .union members, sup => checkEachSubtype policy members sup

/-- The members of a tuple type as checks for subtyping. -/
def subtypeMembers (policy : TuplePolicy) : Tuple Ty → Tuple (Ty → TypeCheck)
  | ⟨shared, positional, values⟩ =>
    ⟨shared, subtypeEach policy positional, subtypeEach policy values⟩

/-- The types of a list as checks for subtyping. -/
def subtypeEach (policy : TuplePolicy) : List Ty → List (Ty → TypeCheck)
  | [] => []
  | a :: as => checkSubtype policy a :: subtypeEach policy as

/-- Whether each type of a list may stand where `sup` is expected. -/
def checkEachSubtype (policy : TuplePolicy) : (subs : List Ty) → (sup : Ty) → TypeCheck
  | [], _ => .ok ()
  | a :: as, sup => do
    checkSubtype policy a sup
    checkEachSubtype policy as sup

end

/-- The checks of a list of types, as a map. -/
theorem subtypeEach_eq_map (policy : TuplePolicy) (as : List Ty) :
    subtypeEach policy as = as.map (checkSubtype policy) := by
  induction as with
  | nil => rfl
  | cons a as ih => rw [subtypeEach, ih, List.map_cons]

/-- The checks of the members of a tuple type, as a map. -/
theorem subtypeMembers_eq_map (policy : TuplePolicy) (t : Tuple Ty) :
    subtypeMembers policy t = t.map (checkSubtype policy) := by
  obtain ⟨shared, positional, values⟩ := t
  rw [subtypeMembers, subtypeEach_eq_map, subtypeEach_eq_map]
  rfl

/-- Two tuple types are compared by the rule for them. -/
theorem checkSubtype_tuple (policy : TuplePolicy) (t u : Tuple Ty) :
    checkSubtype policy (.tuple t) (.tuple u)
      = checkTuple policy (t.map (checkSubtype policy)) u := by
  rw [checkSubtype, against, subtypeMembers_eq_map]
  rfl

/-- Whether `sub` may stand where `sup` is expected. -/
def isSubtype (policy : TuplePolicy) (sub sup : Ty) : Bool := (checkSubtype policy sub sup).isOk

/-! ### Equivalence -/

/-- Whether each of two types may stand for the other. -/
def checkMutualSubtype (policy : TuplePolicy) (a b : Ty) : TypeCheck := do
  checkSubtype policy a b
  checkSubtype policy b a

mutual

/-- Whether two types are equivalent; the first mismatch, if not. The rules for tuples have `b` as
their expected side. -/
def checkEquivalent (policy : TuplePolicy) : (a b : Ty) → TypeCheck
  | .unknown, _ => .ok ()
  | .tuple t, b =>
    match b with
    | .unknown => .ok ()
    | .tuple u => checkSameTuple (equivalentMembers policy t) u
    | b => checkMutualSubtype policy (.tuple t) b
  | .void, b => if b.isUnknown then .ok () else checkMutualSubtype policy .void b
  | .scalar s, b => if b.isUnknown then .ok () else checkMutualSubtype policy (.scalar s) b
  | .union members, b =>
    if b.isUnknown then .ok () else checkMutualSubtype policy (.union members) b

/-- The members of a tuple type as checks for equivalence. -/
def equivalentMembers (policy : TuplePolicy) : Tuple Ty → Tuple (Ty → TypeCheck)
  | ⟨shared, positional, values⟩ =>
    ⟨shared, equivalentEach policy positional, equivalentEach policy values⟩

/-- The types of a list as checks for equivalence. -/
def equivalentEach (policy : TuplePolicy) : List Ty → List (Ty → TypeCheck)
  | [] => []
  | a :: as => checkEquivalent policy a :: equivalentEach policy as

end

/-- The checks of a list of types, as a map. -/
theorem equivalentEach_eq_map (policy : TuplePolicy) (as : List Ty) :
    equivalentEach policy as = as.map (checkEquivalent policy) := by
  induction as with
  | nil => rfl
  | cons a as ih => rw [equivalentEach, ih, List.map_cons]

/-- Two tuple types are compared by the rule for them. -/
theorem checkEquivalent_tuple (policy : TuplePolicy) (t u : Tuple Ty) :
    checkEquivalent policy (.tuple t) (.tuple u)
      = checkSameTuple (t.map (checkEquivalent policy)) u := by
  obtain ⟨shared, positional, values⟩ := t
  rw [checkEquivalent, equivalentMembers, equivalentEach_eq_map, equivalentEach_eq_map]
  rfl

/-- Whether two types are equivalent. -/
def isEquivalent (policy : TuplePolicy) (a b : Ty) : Bool := (checkEquivalent policy a b).isOk

end Ty

end TaggedTuple
