import TaggedTuple.HashFeed
import TaggedTuple.Layout.FieldIndex

/-!
# Layouts

A layout is the shape of a tuple without its values: how many positional members it has, the fields
in the order of their declaration, and an optional tag. Positional members take the slots from zero
on and fields the slots after them. Two layouts have the same shape when they agree on the
positional count, the tag and the set of fields; the order of declaration matters only for listing
and printing.

Slots are machine words, and the program stops at a sum that is none. `Layout.tryBuild` and
`Layout.length?` say where it does, with `none`. A tuple has a place in memory for each slot, so for
the layouts of tuples all sums are words, and `Layout.build` gives their layouts without asking.
-/

namespace TaggedTuple

/-- Slots are machine words, which are the numbers below this one. -/
def slotLimit : Nat := UInt64.size

/-- The shape of a tuple. -/
structure Layout where
  /-- The number of positional members. -/
  positional : Nat
  /-- The fields in the order of their declaration. -/
  fields : List Symbol
  tag : Option Symbol
  /-- Where to find a field. -/
  index : FieldIndex
  index_built : FieldIndex.build positional fields = .ok index
  deriving DecidableEq

namespace Layout

/-- The layout with the given members; a field that is named twice is an error. -/
def build (positional : Nat) (fields : List Symbol) (tag : Option Symbol) :
    Except TupleError Layout :=
  match h : FieldIndex.build positional fields with
  | .ok index => .ok { positional, fields, tag, index, index_built := h }
  | .error e => .error e

/-- Whether the slots of all fields are machine words. -/
def slotsAreWords (positional : Nat) (fields : List Symbol) : Bool :=
  (fields.zipIdx positional).all fun (_, slot) => decide (slot < slotLimit)

/-- The layout with the given members, unless the program stops. It computes all slots before it
looks for a field that is named twice. -/
def tryBuild (positional : Nat) (fields : List Symbol) (tag : Option Symbol) :
    Option (Except TupleError Layout) :=
  if slotsAreWords positional fields then some (build positional fields tag) else none

/-- The untagged layout without fields. -/
def ofPositional (positional : Nat) : Layout where
  positional := positional
  fields := []
  tag := none
  index := .empty
  index_built := rfl

/-- The slot of a field. -/
def slotOf? (l : Layout) (field : Symbol) : Option Nat := l.index.find? field

/-- The place of a field among the fields, which is that of its value among the named values. -/
def positionOf? (l : Layout) (field : Symbol) : Option Nat :=
  (l.slotOf? field).map (· - l.positional)

/-- The fields in ascending order, each with its slot. -/
def slots (l : Layout) : List (Symbol × Nat) := l.index.entries.toList

/-- Whether the layout declares a field. -/
def hasField (l : Layout) (field : Symbol) : Bool := l.index.contains field

/-- The number of slots, unless the program stops because it is no machine word. -/
def length? (l : Layout) : Option Nat :=
  let sum := l.positional + l.fields.length
  if sum < slotLimit then some sum else none

/-- Whether there are no slots, which takes their number. -/
def isEmpty? (l : Layout) : Option Bool := l.length?.map (· == 0)

/-- Whether two layouts describe the same shape. -/
def sameShape (a b : Layout) : Bool :=
  a.positional == b.positional && a.tag == b.tag && a.index.sameSymbols b.index

/-- The feed of an optional symbol. -/
def tagFeed : Option Symbol → HashFeed
  | none => HashFeed.ofNat 0
  | some s => HashFeed.ofNat 1 ++ HashFeed.ofNat s.id

/-- What a layout feeds to a hash function: nothing that depends on the order of declaration. -/
def hashFeed (l : Layout) : HashFeed :=
  HashFeed.ofNat l.positional ++ tagFeed l.tag ++ l.index.symbols.flatMap (HashFeed.ofNat ·.id)

/-- The text of a layout when no names are at hand. -/
def text (l : Layout) : String :=
  "Layout \x7b positional_count: " ++ toString l.positional
    ++ ", named: [" ++ ", ".intercalate (l.fields.map Symbol.text)
    ++ "], tag: " ++ optionalSymbolText l.tag ++ " \x7d"

/-- The text of a layout with its names, as in `Point(_, x:, y:)`. -/
def render (l : Layout) (names : Symbol.Names) : Option String := do
  let tag ← l.tag.elim (some "") names
  let fields ← l.fields.mapM names
  let members := List.replicate l.positional "_" ++ fields.map (· ++ ":")
  return tag ++ "(" ++ ", ".intercalate members ++ ")"

end Layout

end TaggedTuple
