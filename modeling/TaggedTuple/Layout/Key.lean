import TaggedTuple.Layout

/-!
# Layout keys

The key of a layout is its shape in a form that equality of records decides: positional count, tag
and the fields in ascending order. A key is computed either from a declaration list, by sorting it,
or from a layout, by reading its index.
-/

namespace TaggedTuple

/-- The identity of a shape. -/
structure LayoutKey where
  positional : Nat
  tag : Option Symbol
  /-- The fields in ascending order. -/
  fields : List Symbol
  deriving DecidableEq, Repr

namespace LayoutKey

/-- The key of a declaration; the least field that is named twice is the error. -/
def build (positional : Nat) (fields : List Symbol) (tag : Option Symbol) :
    Except TupleError LayoutKey :=
  let sorted := sortByKey id fields
  match firstRepeatedKey? id sorted with
  | some field => .error (.duplicateField field)
  | none => .ok { positional, tag, fields := sorted }

end LayoutKey

/-- The key of a layout. -/
def Layout.key (l : Layout) : LayoutKey := ⟨l.positional, l.tag, l.index.symbols⟩

end TaggedTuple
