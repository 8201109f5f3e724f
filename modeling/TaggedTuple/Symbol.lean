/-!
# Symbols

A symbol is the number that a symbol table gives to a name. Symbols are compared by number
only, so their order is the order in which their names were first seen. The name of a symbol is
known to the table that issued it (`TaggedTuple.SymbolTable`), never to the symbol itself.
-/

namespace TaggedTuple

/-- The number of an interned name. -/
structure Symbol where
  id : Nat
  deriving DecidableEq, Repr, Inhabited

namespace Symbol

instance : LT Symbol := ⟨fun a b => a.id < b.id⟩

instance : DecidableLT Symbol := fun a b => inferInstanceAs (Decidable (a.id < b.id))

/-- The symbol of the empty name, which every table issues first. -/
def empty : Symbol := ⟨0⟩

/-- The text of a symbol when no table is at hand. -/
def text (s : Symbol) : String := "Symbol(" ++ toString s.id ++ ")"

/-- A name source: the name of each symbol it knows. -/
abbrev Names := Symbol → Option String

end Symbol

/-- The text of an optional symbol when no table is at hand. -/
def optionalSymbolText : Option Symbol → String
  | none => "None"
  | some s => "Some(" ++ s.text ++ ")"

end TaggedTuple
