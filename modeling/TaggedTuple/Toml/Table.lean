import TaggedTuple.Toml.Datum

/-!
# Tables in the making

A document defines its tables piece by piece: by headers, by the paths of other headers, and by
dotted keys. What may still be added to a table depends on how it came about. A table is defined by
a header at most once; dotted keys extend only tables that dotted keys began; a value is never
extended.

`alter` goes down a path and changes the table at its end; on the way it begins tables that do not
exist yet, and in an array of tables it takes the last one.
-/

namespace TaggedTuple.Toml

/-- How a table came about. -/
inductive Origin where
  /-- By the path of a header, without a header of its own so far. -/
  | passed
  /-- By a dotted key. -/
  | dotted
  /-- By a header, by braces, or as the document itself. -/
  | defined
  deriving DecidableEq, Repr

/-- A table whose entries are of some kind. -/
structure Table (ι : Type) where
  origin : Origin
  entries : List (String × ι)

/-- An entry of a table in the making. -/
inductive Item where
  | value (d : Datum)
  | table (t : Table Item)
  /-- An array of tables, begun by a header in double brackets. -/
  | tables (ts : List (Table Item))

/-- The path of a key: the tables to go through, and the name of the entry in the last one. -/
structure KeyPath where
  parents : List String
  name : String
  deriving DecidableEq, Repr

namespace KeyPath

/-- All names of a path. -/
def names (k : KeyPath) : List String := k.parents ++ [k.name]

end KeyPath

namespace Table

variable {ι : Type}

/-- A table without entries. -/
def empty (origin : Origin) : Table ι := ⟨origin, []⟩

/-- The entry of a name. -/
def find? (t : Table ι) (name : String) : Option ι := t.entries.lookup name

/-- Adds an entry at the end. -/
def add (t : Table ι) (name : String) (entry : ι) : Table ι :=
  { t with entries := t.entries ++ [(name, entry)] }

/-- Replaces the entry of a name. -/
def replace (t : Table ι) (name : String) (entry : ι) : Table ι :=
  { t with
    entries := t.entries.map fun (other, old) => (other, if other = name then entry else old) }

/-- Changes the table at the end of a path; `dotted` says that the path is that of a dotted key. -/
def alter (dotted : Bool) (change : Table Item → Option (Table Item)) :
    (path : List String) → Table Item → Option (Table Item)
  | [], t => change t
  | name :: path, t =>
    match t.find? name with
    | none => do
      let sub ← alter dotted change path (empty (if dotted then .dotted else .passed))
      return t.add name (.table sub)
    | some (.value _) => none
    | some (.table sub) =>
      if dotted && sub.origin == .defined then none
      else do
        let sub ← alter dotted change path sub
        return t.replace name (.table sub)
    | some (.tables ts) => do
      let last ← ts.getLast?
      let last ← alter dotted change path last
      return t.replace name (.tables (ts.dropLast ++ [last]))

/-- Gives a name that is not in use a value. -/
def addNew (name : String) (entry : Item) (t : Table Item) : Option (Table Item) :=
  match t.find? name with
  | some _ => none
  | none => some (t.add name entry)

/-- Gives a key a value. A table that is no part of the key's own dotted path is not extended. -/
def assign (key : KeyPath) (d : Datum) (t : Table Item) : Option (Table Item) :=
  t.alter true
    (fun sub =>
      if (sub.origin == .dotted) == key.parents.isEmpty then none
      else sub.addNew key.name (.value d))
    key.parents

/-- Defines the table of a header. -/
def define (key : KeyPath) (t : Table Item) : Option (Table Item) :=
  t.alter false
    (fun parent =>
      match parent.find? key.name with
      | none => some (parent.add key.name (.table (empty .defined)))
      | some (.table sub) =>
        if sub.origin = .passed then
          some (parent.replace key.name (.table { sub with origin := .defined }))
        else none
      | some _ => none)
    key.parents

/-- Appends a table to the array of tables of a header. -/
def defineElement (key : KeyPath) (t : Table Item) : Option (Table Item) :=
  t.alter false
    (fun parent =>
      match parent.find? key.name with
      | none => some (parent.add key.name (.tables [empty .defined]))
      | some (.tables ts) => some (parent.replace key.name (.tables (ts ++ [empty .defined])))
      | some _ => none)
    key.parents

/-- Gives keys their values from left to right. -/
def assignAll : List (KeyPath × Datum) → Table Item → Option (Table Item)
  | [], t => some t
  | (key, d) :: rest, t => do
    let t ← t.assign key d
    assignAll rest t

end Table

/-! ### The finished data -/

namespace Item

mutual

/-- The data of an entry. -/
def toDatum : Item → Datum
  | .value d => d
  | .table t => .table (tableEntries t)
  | .tables ts => .array (tableData ts)

/-- The data of a table. -/
def tableEntries : Table Item → List (String × Datum)
  | ⟨_, entries⟩ => entryData entries

/-- The data of named entries. -/
def entryData : List (String × Item) → List (String × Datum)
  | [] => []
  | (name, item) :: rest => (name, item.toDatum) :: entryData rest

/-- The data of tables. -/
def tableData : List (Table Item) → List Datum
  | [] => []
  | t :: ts => .table (tableEntries t) :: tableData ts

end

end Item

end TaggedTuple.Toml
