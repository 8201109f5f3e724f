import TaggedTuple.SymbolTable.Call
import TaggedTuple.Text.Utf8
import TaggedTuple.Tuple.Builder

/-!
# Canonical tuples

A canonical tuple carries names instead of symbols, so it means the same in every session. Its named
members are sorted by name. Reading one back interns its names, as far as the symbol table has room
for them, and asks a cache for its layout.
-/

namespace TaggedTuple

/-- A tuple with names in the place of symbols. -/
structure CanonicalTuple (α : Type) where
  tag : Option String
  /-- The declared number of positional members. -/
  positionalCount : UInt32
  positional : List α
  named : List (String × α)
  deriving DecidableEq, Repr

/-- Why bytes are no encoding. -/
inductive CodecError where
  /-- The bytes end inside a number. -/
  | unexpectedEnd
  /-- A string is longer than the bytes that are left. -/
  | stringPastEnd
  /-- A presence byte is neither 0 nor 1. -/
  | badPresence (b : UInt8)
  | notUtf8 (fault : Utf8.Fault)
  deriving DecidableEq, Repr

/-- Why a tuple could not be turned into its canonical form or its bytes, or back. -/
inductive EncodingError where
  | codec (e : CodecError)
  /-- The declared number of positional members is not the number of members. -/
  | positionalCount (declared found : Nat)
  /-- There are too many positional members to declare. -/
  | tooManyPositional (count : Nat)
  | tuple (e : TupleError)
  /-- A name got no symbol. -/
  | intern (e : SymbolTable.InternError)
  /-- A symbol has no name. -/
  | unnamed (s : Symbol)
  deriving DecidableEq, Repr

namespace CodecError

/-- The error in a message. -/
def message : CodecError → String
  | .unexpectedEnd => "io error: unexpected end of file"
  | .stringPastEnd => "io error: "
  | .badPresence b => "tag for enum is not valid, found " ++ toString b.toNat
  | .notUtf8 fault => "string is not valid utf8: " ++ fault.message

end CodecError

namespace EncodingError

/-- The error in a message, fields given by number. -/
def message : EncodingError → String
  | .codec e => "canonical tuple codec failed: " ++ e.message
  | .positionalCount declared found =>
    "positional count " ++ toString declared ++ " does not match " ++ toString found
      ++ " encoded values"
  | .tooManyPositional count =>
    "positional count " ++ toString count ++ " does not fit in the encoding"
  | .tuple e => e.message
  | .intern e => e.message
  | .unnamed s => "no name for " ++ s.text

end EncodingError

variable {α β : Type}

/-- The name of a symbol that must have one. -/
def requireName (names : Symbol.Names) (s : Symbol) : Except EncodingError String :=
  match names s with
  | some name => .ok name
  | none => .error (.unnamed s)

/-- The canonical form of a tuple. -/
def Tuple.toCanonical (t : Tuple α) (names : Symbol.Names) :
    Except EncodingError (CanonicalTuple α) := do
  if t.arity < UInt32.size then .ok () else .error (.tooManyPositional t.arity)
  let named ← t.named.mapM fun (f, value) => do return (← requireName names f, value)
  let tag ← t.tag.mapM (requireName names)
  return { tag, positionalCount := UInt32.ofNat t.arity, positional := t.positional,
           named := sortByKey Prod.fst named }

namespace CanonicalTuple

/-- Applies a function to each member. -/
def map (g : α → β) (c : CanonicalTuple α) : CanonicalTuple β :=
  { tag := c.tag, positionalCount := c.positionalCount, positional := c.positional.map g,
    named := c.named.map fun (name, value) => (name, g value) }

/-- The symbol of a tag, if there is one. -/
def tryInternTag (table : SymbolTable) :
    Option String → Except SymbolTable.InternError (Option Symbol) × SymbolTable
  | none => (.ok none, table)
  | some name => SymbolTable.andThen (table.tryIntern name) fun s table => (.ok (some s), table)

/-- A builder with the members of a form under symbols for its names. The tag is interned first, and
then the names of the members in the order given. -/
def tryInterned (c : CanonicalTuple α) (table : SymbolTable) :
    Except SymbolTable.InternError (TupleBuilder α) × SymbolTable :=
  SymbolTable.andThen (tryInternTag table c.tag) fun tag table =>
    SymbolTable.andThen (table.tryInternAll (c.named.map Prod.fst)) fun symbols table =>
      (.ok { tag, positional := c.positional, named := symbols.zip (c.named.map Prod.snd) }, table)

/--
The tuple of a canonical form: the declared count is checked, then the tag and the names are
interned in the order given, and last the layout is constructed. What was interned and registered
before a failure stays.
-/
def toTuple (c : CanonicalTuple α) (table : SymbolTable) (cache : LayoutCache) :
    Except EncodingError (Tuple α) × SymbolTable × LayoutCache :=
  if c.positional.length = c.positionalCount.toNat then
    match c.tryInterned table with
    | (.error e, table) => (.error (.intern e), table, cache)
    | (.ok builder, table) =>
      let (t, cache) := builder.finish cache
      (t.mapError .tuple, table, cache)
  else (.error (.positionalCount c.positionalCount.toNat c.positional.length), table, cache)

end CanonicalTuple

end TaggedTuple
