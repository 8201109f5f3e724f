import TaggedTuple.Canonical
import TaggedTuple.Config
import TaggedTuple.SymbolTable.Call

/-!
# Workspaces

A workspace owns the symbol tables and layout caches of all contexts that are open. A context is a
configuration, a policy for types, and references to one table and one cache; several contexts may
refer to the same table or cache, and then each sees what the others add.
-/

namespace TaggedTuple

/-- What a phase of a compilation works with. -/
structure Context where
  config : Config
  /-- The position of the symbol table in the workspace. -/
  table : Nat
  /-- The position of the layout cache in the workspace. -/
  cache : Nat
  policy : TuplePolicy
  deriving DecidableEq, Repr

/-- The tables and caches of all contexts. -/
structure Workspace where
  tables : Array SymbolTable := #[]
  caches : Array LayoutCache := #[]
  /-- Issues the layouts that belong to no context. -/
  standalone : LayoutCache := .empty 0 false

namespace Context

/-- The same context with the symbol table of another one. -/
def withTableOf (c other : Context) : Context := { c with table := other.table }

/-- The same context with another policy for types. -/
def withPolicy (c : Context) (policy : TuplePolicy) : Context := { c with policy }

end Context

namespace Workspace

/-- A workspace without contexts. -/
def empty : Workspace := {}

/-- Opens a context with a table and a cache of its own. -/
def openContext (w : Workspace) (config : Config) : Context × Workspace :=
  let context : Context :=
    { config, table := w.tables.size, cache := w.caches.size, policy := config.types }
  let cache := LayoutCache.empty (w.caches.size + 1) config.canonicalizeLayouts
  (context, { w with tables := w.tables.push .empty, caches := w.caches.push cache })

/-- The symbol table of a context. -/
def tableOf (w : Workspace) (c : Context) : SymbolTable := w.tables[c.table]?.getD .empty

/-- The layout cache of a context. -/
def cacheOf (w : Workspace) (c : Context) : LayoutCache :=
  w.caches[c.cache]?.getD (.empty (c.cache + 1) c.config.canonicalizeLayouts)

/-- Replaces the symbol table of a context. -/
def setTable (w : Workspace) (c : Context) (table : SymbolTable) : Workspace :=
  { w with tables := w.tables.setIfInBounds c.table table }

/-- Replaces the layout cache of a context. -/
def setCache (w : Workspace) (c : Context) (cache : LayoutCache) : Workspace :=
  { w with caches := w.caches.setIfInBounds c.cache cache }

/-- The answer to a call on the symbol table of a context. -/
def call (w : Workspace) (c : Context) (call : SymbolTable.Call) : SymbolTable.Reply × Workspace :=
  let (reply, table) := (w.tableOf c).answer call
  (reply, w.setTable c table)

/-- The symbol of a name, interned in the table of a context. A full table stops the program. -/
def intern (w : Workspace) (c : Context) (name : String) : SymbolTable.Reply × Workspace :=
  w.call c (.intern .infallible name)

end Workspace

end TaggedTuple
