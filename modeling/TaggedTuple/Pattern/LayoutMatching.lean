import TaggedTuple.Pattern.Matching

/-!
# Matching layouts

A tuple pattern can be matched against a layout alone, before there is a value. Only the outer shape
is checked; literals and nested tuple patterns are taken on trust. Each name is bound to the place
where its value will be found.
-/

namespace TaggedTuple

/-- Where the value of a name is found in a tuple. -/
inductive SlotBinding where
  /-- In one slot. -/
  | slot (i : Nat)
  /-- In the positional slots from `start` up to but not including `stop`. -/
  | positionalRest (start stop : Nat)
  /-- In the slots of the given fields, listed in the order of declaration. -/
  | namedRest (fields : List Symbol)
  deriving DecidableEq, Repr

namespace Pattern

/-- The name that a pattern binds to the whole value, if that is all it does. -/
def boundName? : Pattern → Option Symbol
  | .bind name => some name
  | _ => none

end Pattern

namespace TuplePattern

/-- Binds a name, if there is one, to a place, if there is one. -/
def bindSlot (name : Option Symbol) (place : Option SlotBinding) : List (Symbol × SlotBinding) :=
  match name, place with
  | some name, some place => [(name, place)]
  | _, _ => []

/-- The places of the positional parts; `i` is the position of the first of them. -/
def placePositional (alignment : Alignment) (i : Nat) :
    List (PositionalPattern Pattern) → List (Symbol × SlotBinding)
  | [] => []
  | .rest name :: parts =>
    bindSlot name (some (.positionalRest alignment.restStart alignment.restStop))
      ++ placePositional alignment (i + 1) parts
  | .sub p :: parts =>
    bindSlot p.boundName? ((alignment.valueIndex? i).map .slot)
      ++ placePositional alignment (i + 1) parts

/-- The name that a part for a field binds to the value of the field. -/
def fieldName? (key : Symbol) : FieldPattern Pattern → Option Symbol
  | .shorthand => some key
  | .sub p => p.boundName?

/-- The places of the parts for fields. -/
def placeFields (l : Layout) :
    List (Symbol × FieldPattern Pattern) → Except MatchFailure (List (Symbol × SlotBinding))
  | [] => .ok []
  | (key, part) :: parts =>
    match l.slotOf? key with
    | none => .error (.missingField key)
    | some slot =>
      (placeFields l parts).map (bindSlot (fieldName? key part) (some (.slot slot)) ++ ·)

/-- The places of all names of a pattern, or why no tuple with this layout fits. -/
def place (p : TuplePattern Pattern) (l : Layout) :
    Except MatchFailure (List (Symbol × SlotBinding)) := do
  p.checkTag l.tag
  let alignment ← p.align l.positional
  let fields ← placeFields l p.fields
  return placePositional alignment 0 p.positional ++ fields
    ++ bindSlot p.namedRest (some (.namedRest (p.unmentioned l)))

/-- Matches a layout, after the pattern was checked. -/
def matchLayout (p : TuplePattern Pattern) (l : Layout) :
    Except PatternError (MatchOutcome SlotBinding) :=
  match p.validate with
  | .error e => .error e
  | .ok () =>
    match p.place l with
    | .ok bound => .ok (.matched (.ofList bound))
    | .error failure => .ok (.failed failure)

end TuplePattern

end TaggedTuple
