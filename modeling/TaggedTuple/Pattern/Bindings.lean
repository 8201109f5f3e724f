import TaggedTuple.Symbol

/-!
# Bindings

The names that a match binds, in the order of the pattern. A name that is bound again keeps its
first place and takes the last value.
-/

namespace TaggedTuple

/-- Names with the values bound to them. -/
structure Bindings (α : Type) where
  entries : List (Symbol × α) := []

namespace Bindings

variable {α : Type}

/-- No names. -/
def empty : Bindings α := {}

/-- Binds a name in a list of entries. -/
def bindEntry (name : Symbol) (value : α) : List (Symbol × α) → List (Symbol × α)
  | [] => [(name, value)]
  | (bound, old) :: rest =>
    if bound = name then (bound, value) :: rest else (bound, old) :: bindEntry name value rest

/-- Binds a name. -/
def bind (b : Bindings α) (name : Symbol) (value : α) : Bindings α :=
  ⟨bindEntry name value b.entries⟩

/-- Binds names from left to right. -/
def ofList (bound : List (Symbol × α)) : Bindings α :=
  bound.foldl (fun b (name, value) => b.bind name value) empty

/-- The value bound to a name. -/
def get? (b : Bindings α) (name : Symbol) : Option α := b.entries.lookup name

/-- The number of names. -/
def length (b : Bindings α) : Nat := b.entries.length

/-- Whether no name is bound. -/
def isEmpty (b : Bindings α) : Bool := b.entries.isEmpty

end Bindings

end TaggedTuple
