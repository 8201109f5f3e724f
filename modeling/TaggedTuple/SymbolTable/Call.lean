import TaggedTuple.SymbolTable

/-!
# Calls on a symbol table

Symbols have 32 bits, so a table has room for `capacity` names. There are three ways to ask for the
symbol of a name, which differ in who owns the name and in what happens when the name is new and the
table is full: two of them refuse the name, the third one stops the program. Looking a name up never
adds it.
-/

namespace TaggedTuple

namespace SymbolTable

/-- Why a name got no symbol. -/
inductive InternError where
  /-- The table is full. -/
  | overflow (count : Nat)
  deriving DecidableEq, Repr

/-- The number of names that a table has room for. -/
def capacity : Nat := UInt32.size

/-- The error in a message. -/
def InternError.message : InternError → String
  | .overflow count =>
    "symbol interner exceeded capacity: " ++ toString count ++ " strings, max is "
      ++ toString (capacity - 1)

/-- Gives a new name the next number, if there is one left. -/
def insert (t : SymbolTable) (name : String) : Except InternError Symbol × SymbolTable :=
  if t.size < capacity then
    let s : Symbol := ⟨t.size⟩
    (.ok s, { names := t.names.push name, symbols := t.symbols.insert name s })
  else (.error (.overflow t.size), t)

/-- The symbol of a name, which is stored if it is new. A name that is not found is looked up again
before it is stored, since others could have added it up to then. -/
def tryIntern (t : SymbolTable) (name : String) : Except InternError Symbol × SymbolTable :=
  match t.find? name with
  | some s => (.ok s, t)
  | none =>
    match t.find? name with
    | some s => (.ok s, t)
    | none => t.insert name

/-- The symbol of a name that the table takes over if it is new. -/
def tryInternOwned (t : SymbolTable) (name : String) : Except InternError Symbol × SymbolTable :=
  match t.find? name with
  | some s => (.ok s, t)
  | none =>
    match t.find? name with
    | some s => (.ok s, t)
    | none => t.insert name

/-- Goes on with what an attempt gave. The first name that is refused ends it, and the names before
it stay in the table. -/
def andThen {α β : Type} (result : Except InternError α × SymbolTable)
    (next : α → SymbolTable → Except InternError β × SymbolTable) :
    Except InternError β × SymbolTable :=
  match result with
  | (.ok a, t) => next a t
  | (.error e, t) => (.error e, t)

/-- The symbols of several names that the table takes over, from left to right. -/
def tryInternAll (t : SymbolTable) : List String → Except InternError (List Symbol) × SymbolTable
  | [] => (.ok [], t)
  | name :: rest =>
    andThen (t.tryInternOwned name) fun s t =>
      andThen (t.tryInternAll rest) fun ss t => (.ok (s :: ss), t)

/-- The ways to ask for the symbol of a name. -/
inductive Entry where
  /-- The caller keeps the name; a full table refuses it. -/
  | borrowed
  /-- The table takes the name over; a full table refuses it. -/
  | owned
  /-- A full table stops the program. -/
  | infallible
  deriving DecidableEq, Repr

/-- The attempt behind each way to ask. -/
def Entry.attempt : Entry → SymbolTable → String → Except InternError Symbol × SymbolTable
  | .borrowed => tryIntern
  | .owned => tryInternOwned
  | .infallible => tryIntern

/-- A call on a table. -/
inductive Call where
  | intern (entry : Entry) (name : String)
  | find (name : String)
  deriving DecidableEq, Repr

/-- What a call answers. -/
inductive Reply where
  | symbol (s : Symbol)
  | found (s : Option Symbol)
  | refused (e : InternError)
  | stopped (message : String)
  deriving DecidableEq, Repr

/-- The answer to a caller whose name finds the table full. -/
def Entry.overflow : Entry → InternError → Reply
  | .infallible, e => .stopped e.message
  | _, e => .refused e

/-- The answer to a call, with the table that it leaves. -/
def answer (t : SymbolTable) : Call → Reply × SymbolTable
  | .find name => (.found (t.find? name), t)
  | .intern entry name =>
    match entry.attempt t name with
    | (.ok s, t) => (.symbol s, t)
    | (.error e, t) => (entry.overflow e, t)

end SymbolTable

end TaggedTuple
