import TaggedTuple.Layout.Cache

/-!
# Tuples

A tuple is a shared layout with the values of its members: the positional ones in order, and the
named ones in the order in which the layout declares their fields. Positional members are reached
by index, named ones by field only. Nothing is ever changed in place; an update copies the values
and keeps the layout instance.

`Tuple.WellFormed` says that there is one value for each member of the layout; every operation of
the library that builds a tuple builds a well-formed one.
-/

namespace TaggedTuple

/-- The address of a member. -/
inductive TupleKey where
  | index (i : Nat)
  | field (f : Symbol)
  deriving DecidableEq, Repr

/-- A member of a tuple literal. -/
inductive TupleEntry (α : Type) where
  | positional (value : α)
  | named (field : Symbol) (value : α)
  deriving DecidableEq, Repr

/-- A composite value, or a product type when the members are types. -/
structure Tuple (α : Type) where
  shared : SharedLayout
  positional : List α
  /-- The named members in the order of declaration. -/
  values : List α

namespace Tuple

variable {α β : Type}

/-- The layout. -/
def layout (t : Tuple α) : Layout := t.shared.layout

/-- The tag, if any. -/
def tag (t : Tuple α) : Option Symbol := t.layout.tag

/-- The number of positional members. -/
def arity (t : Tuple α) : Nat := t.layout.positional

/-- There is one value for each member of the layout. -/
structure WellFormed (t : Tuple α) : Prop where
  positional_length : t.positional.length = t.layout.positional
  values_length : t.values.length = t.layout.fields.length

/-! ### Construction -/

/--
Puts the value of each pair into the place of its field. The first pair whose field is not declared,
or whose place is taken, is the error.
-/
def fill (layout : Layout) :
    List (Option α) → List (Symbol × α) → Except TupleError (List (Option α))
  | places, [] => .ok places
  | places, (field, value) :: rest =>
    match layout.positionOf? field with
    | none => .error (.unknownField field)
    | some position =>
      if (places[position]?.bind id).isSome then .error (.duplicateField field)
      else fill layout (places.set position (some value)) rest

/-- The values in the places; the first field whose place is empty is the error. -/
def collect : List Symbol → List (Option α) → Except TupleError (List α)
  | field :: fields, place :: places =>
    match place with
    | none => .error (.missingField field)
    | some value => (collect fields places).map (value :: ·)
  | _, _ => .ok []

/--
The tuple with the given members. The number of positional values is checked first, then the named
values in the order given, and last that no field is without a value.
-/
def construct (shared : SharedLayout) (positional : List α) (named : List (Symbol × α)) :
    Except TupleError (Tuple α) :=
  let layout := shared.layout
  if positional.length = layout.positional then do
    let places ← fill layout (List.replicate layout.fields.length none) named
    let values ← collect layout.fields places
    return { shared, positional, values }
  else .error (.arityMismatch layout.positional positional.length)

/-- The tuple with the given positional members and no named ones. -/
def ofPositional (shared : SharedLayout) (positional : List α) : Except TupleError (Tuple α) :=
  construct shared positional []

/-! ### Access -/

/-- The positional member at an index. -/
def at? (t : Tuple α) (i : Nat) : Option α := if i < t.arity then t.positional[i]? else none

/-- The named member of a field. -/
def field? (t : Tuple α) (f : Symbol) : Option α := do
  let position ← t.layout.positionOf? f
  t.values[position]?

/-- The positional member at an index, or the reason why there is none. -/
def get (t : Tuple α) (i : Nat) : Except TupleError α :=
  match t.at? i with
  | some value => .ok value
  | none => .error (.indexOutOfRange i t.arity)

/-- The named member of a field, or the reason why there is none. -/
def getField (t : Tuple α) (f : Symbol) : Except TupleError α :=
  match t.field? f with
  | some value => .ok value
  | none => .error (.unknownField f)

/-- The member at an address, or the reason why there is none. -/
def getKey (t : Tuple α) : TupleKey → Except TupleError α
  | .index i => t.get i
  | .field f => t.getField f

/-- The named members in the order of declaration. -/
def named (t : Tuple α) : List (Symbol × α) := t.layout.fields.zip t.values

/-- The named members in ascending order of their fields. -/
def namedAscending (t : Tuple α) : List (Symbol × α) :=
  t.layout.slots.filterMap fun (f, slot) =>
    t.values[slot - t.arity]?.map fun value => (f, value)

/-- All members: the positional ones, then the named ones in the order of declaration. -/
def entries (t : Tuple α) : List (TupleEntry α) :=
  t.positional.map .positional ++ t.named.map fun (f, value) => .named f value

/-! ### Members one by one -/

/-- Applies a function to each member. -/
def map (g : α → β) (t : Tuple α) : Tuple β :=
  { shared := t.shared, positional := t.positional.map g, values := t.values.map g }

/-- Runs an action on each member in slot order. -/
def mapM {m : Type → Type} [Monad m] (g : α → m β) (t : Tuple α) : m (Tuple β) := do
  let positional ← t.positional.mapM g
  let values ← t.values.mapM g
  return { shared := t.shared, positional, values }

/-! ### Derived tuples -/

/-- The tuple that differs at one address only. -/
def withUpdated (t : Tuple α) (key : TupleKey) (value : α) : Except TupleError (Tuple α) :=
  match key with
  | .index i =>
    if i < t.arity then .ok { t with positional := t.positional.set i value }
    else .error (.indexOutOfRange i t.arity)
  | .field f =>
    match t.layout.positionOf? f with
    | none => .error (.unknownField f)
    | some position => .ok { t with values := t.values.set position value }

/--
The positional members from `start` up to but not including `stop`, as an untagged tuple. A range
that is reversed or reaches past the last positional member is an error, named by its end.
-/
def slicePositional (t : Tuple α) (start stop : Nat) (cache : LayoutCache) :
    Except TupleError (Tuple α) × LayoutCache :=
  if start ≤ stop ∧ stop ≤ t.positional.length then
    let positional := (t.positional.take stop).drop start
    let (shared, cache) := cache.positional positional.length
    (.ok { shared, positional, values := [] }, cache)
  else (.error (.indexOutOfRange stop t.arity), cache)

/--
The named members of the given fields, as an untagged tuple. The layout is constructed first; then
each of its fields is read, in the order in which the layout declares them.
-/
def projectNamed (t : Tuple α) (fields : List Symbol) (cache : LayoutCache) :
    Except TupleError (Tuple α) × LayoutCache :=
  match cache.construct 0 fields none with
  | (.error e, cache) => (.error e, cache)
  | (.ok shared, cache) =>
    match shared.layout.fields.mapM t.getField with
    | .error e => (.error e, cache)
    | .ok values => (.ok { shared, positional := [], values }, cache)

/-! ### Text -/

/-- The text of a tuple of texts, as in `Tag(1, 2, x: 3)`; a text that is unknown makes it
unknown. -/
def render (t : Tuple (Option String)) (names : Symbol.Names) : Option String := do
  let tag ← t.tag.elim (some "") names
  let positional ← t.positional.mapM id
  let named ← t.named.mapM fun (f, value) => do return (← names f) ++ ": " ++ (← value)
  return tag ++ "(" ++ ", ".intercalate (positional ++ named) ++ ")"

/-- The text of a tuple of texts when no names are at hand. -/
def text (t : Tuple String) : String :=
  "Tuple \x7b tag: " ++ optionalSymbolText t.tag
    ++ ", positional: [" ++ ", ".intercalate t.positional
    ++ "], named: \x7b"
    ++ ", ".intercalate (t.named.map fun (f, value) => f.text ++ ": " ++ value) ++ "\x7d \x7d"

end Tuple

end TaggedTuple
