import TaggedTuple.Tuple

/-!
# Tuple builders

A literal such as `Point(1, y: 2, 3)` mixes positional and named entries. A builder collects them,
each kind in its own order, and asks a cache for the layout only when the tuple is finished.
-/

namespace TaggedTuple

/-- The entries of a tuple whose layout is not known yet. -/
structure TupleBuilder (α : Type) where
  tag : Option Symbol := none
  positional : List α := []
  named : List (Symbol × α) := []

namespace TupleBuilder

variable {α : Type}

/-- A builder without entries. -/
def empty (tag : Option Symbol) : TupleBuilder α := { tag }

/-- Appends a positional entry. -/
def push (b : TupleBuilder α) (value : α) : TupleBuilder α :=
  { b with positional := b.positional ++ [value] }

/-- Appends a named entry; a repeated field is found when the tuple is finished. -/
def insert (b : TupleBuilder α) (field : Symbol) (value : α) : TupleBuilder α :=
  { b with named := b.named ++ [(field, value)] }

/-- Appends an entry of either kind. -/
def add (b : TupleBuilder α) : TupleEntry α → TupleBuilder α
  | .positional value => b.push value
  | .named field value => b.insert field value

/-- Appends entries from left to right. -/
def extend (b : TupleBuilder α) (entries : List (TupleEntry α)) : TupleBuilder α :=
  entries.foldl add b

/-- An untagged builder with the given entries. -/
def ofEntries (entries : List (TupleEntry α)) : TupleBuilder α := (empty none).extend entries

/-- The number of entries. -/
def length (b : TupleBuilder α) : Nat := b.positional.length + b.named.length

/-- Whether there are no entries. -/
def isEmpty (b : TupleBuilder α) : Bool := b.length == 0

/-- The tuple of the entries, on a layout of the cache. -/
def finish (b : TupleBuilder α) (cache : LayoutCache) :
    Except TupleError (Tuple α) × LayoutCache :=
  match cache.construct b.positional.length (b.named.map Prod.fst) b.tag with
  | (.error e, cache) => (.error e, cache)
  | (.ok shared, cache) => (Tuple.construct shared b.positional b.named, cache)

end TupleBuilder

end TaggedTuple
