import Std.Data.TreeMap
import TaggedTuple.Symbol

/-!
# Symbol tables

A symbol table numbers names in the order in which they are first interned, starting with the empty
name at zero. It keeps two structures, the names by number and a map from names back to symbols;
interning extends both together, so each stays the inverse of the other. `intern` says how a table
grows as long as there are numbers left.
-/

namespace TaggedTuple

/-- Interned names, by number and by name. -/
structure SymbolTable where
  /-- The name of each symbol, at the symbol's number. -/
  names : Array String
  /-- The symbol of each name. -/
  symbols : Std.TreeMap String Symbol

namespace SymbolTable

/-- A table that holds the empty name only. -/
def empty : SymbolTable where
  names := #[""]
  symbols := (∅ : Std.TreeMap String Symbol).insert "" Symbol.empty

instance : Inhabited SymbolTable := ⟨empty⟩

/-- The number of names, the empty one included. -/
def size (t : SymbolTable) : Nat := t.names.size

/-- Whether no name but the empty one was interned. -/
def isEmpty (t : SymbolTable) : Bool := decide (t.size ≤ 1)

/-- The symbol of a name, if the name was interned. -/
def find? (t : SymbolTable) (name : String) : Option Symbol := t.symbols[name]?

/-- The name of a symbol, if the table issued it. -/
def name? (t : SymbolTable) : Symbol.Names := fun s => t.names[s.id]?

/-- The symbol of a name, which gets the next number if it is new. -/
def intern (t : SymbolTable) (name : String) : Symbol × SymbolTable :=
  match t.find? name with
  | some s => (s, t)
  | none =>
    let s : Symbol := ⟨t.size⟩
    (s, { names := t.names.push name, symbols := t.symbols.insert name s })

/-- The symbols of several names, interned from left to right. -/
def internAll (t : SymbolTable) : List String → List Symbol × SymbolTable
  | [] => ([], t)
  | name :: rest =>
    let (s, t) := t.intern name
    let (ss, t) := t.internAll rest
    (s :: ss, t)

/-- The text of a table: how many names it holds. -/
def text (t : SymbolTable) : String := "SymbolInterner \x7b len: " ++ toString t.size ++ " \x7d"

end SymbolTable

end TaggedTuple
