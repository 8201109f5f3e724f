import TaggedTuple.Layout.Key

/-!
# Layout caches

A cache hands out layouts as shared instances. A canonicalizing cache keeps one instance for each
shape, namely the first one asked for, so a later request may get a layout that declares the same
fields in another order. A cache that does not canonicalize makes a fresh instance on each request
and keeps none.

Every operation returns its result beside the cache that it leaves. As for layouts, there is a
request that the program may stop at, `LayoutCache.tryConstruct`, and one for layouts whose slots
are machine words, `LayoutCache.construct`.
-/

namespace TaggedTuple

/-- A layout together with the identity of one instance of it: who issued it, and as which one. -/
structure SharedLayout where
  /-- The cache that issued the instance. -/
  issuer : Nat
  /-- The number of the instance among those of its issuer. -/
  serial : Nat
  layout : Layout
  deriving DecidableEq

/-- A store of layouts, by shape. -/
structure LayoutCache where
  /-- Tells the instances of this cache from those of others. -/
  id : Nat
  /-- Whether each shape has one instance. -/
  canonicalize : Bool
  /-- How many instances were issued. -/
  issued : Nat := 0
  /-- The kept instances in the order of their registration. -/
  entries : List (LayoutKey × SharedLayout) := []

namespace LayoutCache

/-- An empty cache. -/
def empty (id : Nat) (canonicalize : Bool) : LayoutCache := { id, canonicalize }

/-- The number of shapes kept. -/
def size (c : LayoutCache) : Nat := c.entries.length

/-- Whether no shape is kept. -/
def isEmpty (c : LayoutCache) : Bool := c.entries.isEmpty

/-- A fresh instance of a layout. -/
def issue (c : LayoutCache) (layout : Layout) : SharedLayout × LayoutCache :=
  (⟨c.id, c.issued, layout⟩, { c with issued := c.issued + 1 })

/-- A fresh instance of a layout, kept under a key. -/
def register (c : LayoutCache) (key : LayoutKey) (layout : Layout) : SharedLayout × LayoutCache :=
  let (shared, c) := c.issue layout
  (shared, { c with entries := c.entries ++ [(key, shared)] })

/--
The layout with the given members. A canonicalizing cache answers with the instance it keeps for
the shape, if any; a field that is named twice is an error, which leaves the cache as it was.
-/
def construct (c : LayoutCache) (positional : Nat) (fields : List Symbol) (tag : Option Symbol) :
    Except TupleError SharedLayout × LayoutCache :=
  if c.canonicalize then
    match LayoutKey.build positional fields tag with
    | .error e => (.error e, c)
    | .ok key =>
      match c.entries.lookup key with
      | some shared => (.ok shared, c)
      | none =>
        match Layout.build positional fields tag with
        | .error e => (.error e, c)
        | .ok layout =>
          let (shared, c) := c.register key layout
          (.ok shared, c)
  else
    match Layout.build positional fields tag with
    | .error e => (.error e, c)
    | .ok layout =>
      let (shared, c) := c.issue layout
      (.ok shared, c)

/--
The layout with the given members, unless the program stops, which leaves the cache as it was. A
canonicalizing cache looks for a field that is named twice, and for the shape, before it builds a
layout.
-/
def tryConstruct (c : LayoutCache) (positional : Nat) (fields : List Symbol)
    (tag : Option Symbol) : Option (Except TupleError SharedLayout) × LayoutCache :=
  if c.canonicalize then
    match LayoutKey.build positional fields tag with
    | .error e => (some (.error e), c)
    | .ok key =>
      match c.entries.lookup key with
      | some shared => (some (.ok shared), c)
      | none =>
        match Layout.tryBuild positional fields tag with
        | none => (none, c)
        | some (.error e) => (some (.error e), c)
        | some (.ok layout) =>
          let (shared, c) := c.register key layout
          (some (.ok shared), c)
  else
    match Layout.tryBuild positional fields tag with
    | none => (none, c)
    | some (.error e) => (some (.error e), c)
    | some (.ok layout) =>
      let (shared, c) := c.issue layout
      (some (.ok shared), c)

/-- The untagged layout without fields, which has no sums to compute. -/
def positional (c : LayoutCache) (count : Nat) : SharedLayout × LayoutCache :=
  match c.construct count [] none with
  | (.ok shared, c) => (shared, c)
  | (.error _, c) => c.issue (.ofPositional count)

/-- The text of a cache: how many shapes it keeps and whether it canonicalizes. -/
def text (c : LayoutCache) : String :=
  "LayoutCache \x7b len: " ++ toString c.size ++ ", canonicalize: " ++ toString c.canonicalize
    ++ " \x7d"

end LayoutCache

end TaggedTuple
