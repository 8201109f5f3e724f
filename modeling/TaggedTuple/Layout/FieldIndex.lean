import TaggedTuple.Sorting
import TaggedTuple.Tuple.Error

/-!
# Field indices

A field index finds the slot of a declared field. The fields take the slots after those of the
positional members, in the order of their declaration; the index holds them in ascending order, each
with its slot, so that a binary search answers. A list that names a field twice has no index.
-/

namespace TaggedTuple

/-- Declared fields in ascending order, each with its slot. -/
structure FieldIndex where
  entries : Array (Symbol × Nat)
  deriving DecidableEq, Repr

namespace FieldIndex

/-- The index of no fields. -/
def empty : FieldIndex := ⟨#[]⟩

/-- The index of a list of fields that are declared after a number of positional members; the least
field that is named twice is the error. -/
def build (positional : Nat) (fields : List Symbol) : Except TupleError FieldIndex :=
  let sorted := sortByKey Prod.fst (fields.zipIdx positional)
  match firstRepeatedKey? Prod.fst sorted with
  | some field => .error (.duplicateField field)
  | none => .ok ⟨sorted.toArray⟩

/-- The fields in ascending order. -/
def symbols (x : FieldIndex) : List Symbol := x.entries.toList.map Prod.fst

/-- The number of fields. -/
def size (x : FieldIndex) : Nat := x.entries.size

/-- Whether there are no fields. -/
def isEmpty (x : FieldIndex) : Bool := x.entries.isEmpty

/-- Searches the entries from `low` up to but not including `high`. -/
def search (entries : Array (Symbol × Nat)) (field : Symbol) (low high : Nat)
    (high_le : high ≤ entries.size) : Option Nat :=
  if h : low < high then
    let middle := low + (high - low) / 2
    have middle_lt : middle < entries.size := by omega
    let entry := entries[middle]
    if entry.1 = field then some entry.2
    else if entry.1 < field then search entries field (middle + 1) high high_le
    else search entries field low middle (by omega)
  else none
termination_by high - low

/-- The slot of a field. -/
def find? (x : FieldIndex) (field : Symbol) : Option Nat :=
  search x.entries field 0 x.entries.size (Nat.le_refl _)

/-- Whether the field is declared. -/
def contains (x : FieldIndex) (field : Symbol) : Bool := (x.find? field).isSome

/-- Whether two indices hold the same fields, wherever each declares them. -/
def sameSymbols (x y : FieldIndex) : Bool := x.size == y.size && x.symbols == y.symbols

end FieldIndex

end TaggedTuple
