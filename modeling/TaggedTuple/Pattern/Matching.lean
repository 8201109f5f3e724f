import TaggedTuple.Pattern.Alignment
import TaggedTuple.Pattern.Bindings
import TaggedTuple.Value

/-!
# Matching values

A tuple pattern is matched in a fixed order: tag, number of positional members, positional parts
from left to right, parts for fields in the order of the pattern, and last the capture of the fields
that are not mentioned. The first condition that does not hold is the failure.

A match collects the names it binds as a list of pairs, from left to right; captures build their
tuples on layouts of a cache, which is threaded through the match and keeps what it registered even
if the match fails later.
-/

namespace TaggedTuple

/-- What ends a match early. -/
inductive Halt where
  /-- The value does not fit. -/
  | failed (failure : MatchFailure)
  /-- The pattern cannot be used. -/
  | malformed (e : PatternError)
  deriving DecidableEq, Repr

/-- A match in progress: it binds names and may register layouts. -/
def Matching (α : Type) := LayoutCache → Except Halt (List (Symbol × α)) × LayoutCache

/-- The outcome of matching a well-formed pattern. -/
inductive MatchOutcome (α : Type) where
  | matched (bindings : Bindings α)
  | failed (failure : MatchFailure)

/-- The first arm that matches. -/
structure ArmMatch (α : Type) where
  arm : Nat
  bindings : Bindings α

namespace Matching

variable {α : Type}

/-- Binds nothing. -/
def nothing : Matching α := fun cache => (.ok [], cache)

/-- Binds one name. -/
def bind (name : Symbol) (value : α) : Matching α := fun cache => (.ok [(name, value)], cache)

/-- Ends the match: the value does not fit. -/
def fail (failure : MatchFailure) : Matching α := fun cache => (.error (.failed failure), cache)

/-- Binds what the first match binds, then what the second one binds. -/
def followedBy (first second : Matching α) : Matching α := fun cache =>
  match first cache with
  | (.error halt, cache) => (.error halt, cache)
  | (.ok bound, cache) =>
    match second cache with
    | (.error halt, cache) => (.error halt, cache)
    | (.ok more, cache) => (.ok (bound ++ more), cache)

/-- Binds a name to a tuple that is built with the help of the cache. -/
def capture (wrap : Tuple α → α) (name : Symbol)
    (build : LayoutCache → Except TupleError (Tuple α) × LayoutCache) : Matching α :=
  fun cache =>
    match build cache with
    | (.ok t, cache) => (.ok [(name, wrap t)], cache)
    | (.error e, cache) => (.error (.malformed (.capture e)), cache)

/-- Runs a match on a cache. -/
def outcome (m : Matching α) (cache : LayoutCache) :
    Except PatternError (MatchOutcome α) × LayoutCache :=
  match m cache with
  | (.ok bound, cache) => (.ok (.matched (.ofList bound)), cache)
  | (.error (.failed failure), cache) => (.ok (.failed failure), cache)
  | (.error (.malformed e), cache) => (.error e, cache)

end Matching

/-! ### Tuple patterns whose sub-patterns are matches -/

namespace TuplePattern

variable {α : Type}

/-- Matches the positional parts; `i` is the position of the first of them. -/
def matchPositional (wrap : Tuple α → α) (alignment : Alignment) (t : Tuple α) (i : Nat) :
    List (PositionalPattern (α → Matching α)) → Matching α
  | [] => .nothing
  | .rest none :: parts => matchPositional wrap alignment t (i + 1) parts
  | .rest (some name) :: parts =>
    (Matching.capture wrap name
      (t.slicePositional alignment.restStart alignment.restStop)).followedBy
      (matchPositional wrap alignment t (i + 1) parts)
  | .sub matchSub :: parts =>
    match (alignment.valueIndex? i).bind t.at? with
    | none => matchPositional wrap alignment t (i + 1) parts
    | some value =>
      (matchSub value).followedBy (matchPositional wrap alignment t (i + 1) parts)

/-- Matches the value of a field. -/
def matchField (key : Symbol) (value : α) : FieldPattern (α → Matching α) → Matching α
  | .shorthand => .bind key value
  | .sub matchSub => matchSub value

/-- Matches the parts for fields. -/
def matchFields (t : Tuple α) : List (Symbol × FieldPattern (α → Matching α)) → Matching α
  | [] => .nothing
  | (key, part) :: parts =>
    match t.field? key with
    | none => .fail (.missingField key)
    | some value => (matchField key value part).followedBy (matchFields t parts)

/-- Captures the fields that are not mentioned, if the pattern asks for them. -/
def matchNamedRest (wrap : Tuple α → α) (p : TuplePattern (α → Matching α)) (t : Tuple α) :
    Matching α :=
  match p.namedRest with
  | none => .nothing
  | some name => .capture wrap name (t.projectNamed (p.unmentioned t.layout))

/-- Matches a tuple. -/
def matchParts (wrap : Tuple α → α) (p : TuplePattern (α → Matching α)) (t : Tuple α) :
    Matching α :=
  match p.checkTag t.tag, p.align t.arity with
  | .error failure, _ => .fail failure
  | .ok (), .error failure => .fail failure
  | .ok (), .ok alignment =>
    (matchPositional wrap alignment t 0 p.positional).followedBy
      ((matchFields t p.fields).followedBy (matchNamedRest wrap p t))

end TuplePattern

/-! ### Patterns -/

namespace Literal

/-- Whether a value is equal to a literal. -/
def accepts : Literal → Value → Bool
  | .int n, v => v.int? == some n
  | .str s, v => v.str? == some s

end Literal

namespace Pattern

mutual

/-- Matches a value. -/
def matchInto : Pattern → Value → Matching Value
  | .wildcard, _ => .nothing
  | .bind name, v => .bind name v
  | .literal l, v => if l.accepts v then .nothing else .fail .literalMismatch
  | .tuple p, v =>
    match v.tuple? with
    | some t => (matchMembers p).matchParts .tuple t
    | none => .fail .notATuple

/-- The sub-patterns of a tuple pattern as matches. -/
def matchMembers : TuplePattern Pattern → TuplePattern (Value → Matching Value)
  | ⟨tag, positional, fields, namedRest⟩ =>
    ⟨tag, matchEachPositional positional, matchEachField fields, namedRest⟩

/-- The sub-patterns of positional parts as matches. -/
def matchEachPositional :
    List (PositionalPattern Pattern) → List (PositionalPattern (Value → Matching Value))
  | [] => []
  | .sub p :: rest => .sub p.matchInto :: matchEachPositional rest
  | .rest name :: rest => .rest name :: matchEachPositional rest

/-- The sub-patterns of parts for fields as matches. -/
def matchEachField :
    List (Symbol × FieldPattern Pattern) → List (Symbol × FieldPattern (Value → Matching Value))
  | [] => []
  | (key, .shorthand) :: rest => (key, .shorthand) :: matchEachField rest
  | (key, .sub p) :: rest => (key, .sub p.matchInto) :: matchEachField rest

end

/-- The matches of the positional parts, as a map. -/
theorem matchEachPositional_eq_map (parts : List (PositionalPattern Pattern)) :
    matchEachPositional parts = parts.map (·.map matchInto) := by
  induction parts with
  | nil => rfl
  | cons part rest ih =>
    cases part <;> rw [matchEachPositional, ih, List.map_cons] <;> rfl

/-- The matches of the parts for fields, as a map. -/
theorem matchEachField_eq_map (parts : List (Symbol × FieldPattern Pattern)) :
    matchEachField parts = parts.map fun (key, f) => (key, f.map matchInto) := by
  induction parts with
  | nil => rfl
  | cons part rest ih =>
    obtain ⟨key, part⟩ := part
    cases part <;> rw [matchEachField, ih, List.map_cons] <;> rfl

/-- A tuple pattern matches a tuple part by part. -/
theorem matchInto_tuple (p : TuplePattern Pattern) (t : Tuple Value) :
    matchInto (.tuple p) (.tuple t) = (p.map matchInto).matchParts .tuple t := by
  obtain ⟨tag, positional, fields, namedRest⟩ := p
  rw [matchInto, matchMembers, matchEachPositional_eq_map, matchEachField_eq_map]
  rfl

/-- Matches a value, after the pattern was checked. -/
def matchValue (p : Pattern) (v : Value) (cache : LayoutCache) :
    Except PatternError (MatchOutcome Value) × LayoutCache :=
  match p.validate with
  | .error e => (.error e, cache)
  | .ok () => (p.matchInto v).outcome cache

end Pattern

namespace TuplePattern

/-- Matches a tuple, without a check of the pattern. -/
def matchInto (p : TuplePattern Pattern) (t : Tuple Value) : Matching Value :=
  (p.map Pattern.matchInto).matchParts .tuple t

/-- Matches a tuple, after the pattern was checked. -/
def matchTuple (p : TuplePattern Pattern) (t : Tuple Value) (cache : LayoutCache) :
    Except PatternError (MatchOutcome Value) × LayoutCache :=
  match p.validate with
  | .error e => (.error e, cache)
  | .ok () => (p.matchInto t).outcome cache

/-- Checks patterns from left to right. -/
def validateAll : List (TuplePattern Pattern) → Except PatternError Unit
  | [] => .ok ()
  | p :: ps => do
    p.validate
    validateAll ps

/-- Tries arms from left to right; `i` is the position of the first of them. -/
def tryArms (t : Tuple Value) (i : Nat) :
    List (TuplePattern Pattern) → LayoutCache →
      Except PatternError (Option (ArmMatch Value)) × LayoutCache
  | [], cache => (.ok none, cache)
  | p :: ps, cache =>
    match (p.matchInto t).outcome cache with
    | (.error e, cache) => (.error e, cache)
    | (.ok (.matched bindings), cache) => (.ok (some ⟨i, bindings⟩), cache)
    | (.ok (.failed _), cache) => tryArms t (i + 1) ps cache

/-- The first arm that matches a tuple; all arms are checked before any is tried. -/
def matchArms (arms : List (TuplePattern Pattern)) (t : Tuple Value) (cache : LayoutCache) :
    Except PatternError (Option (ArmMatch Value)) × LayoutCache :=
  match validateAll arms with
  | .error e => (.error e, cache)
  | .ok () => tryArms t 0 arms cache

end TuplePattern

end TaggedTuple
