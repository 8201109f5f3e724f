import Mathlib.Data.List.Perm.Basic
import TaggedTuple.Proofs.Renaming.Tuple
import TaggedTuple.Proofs.Tuple.Construction

/-!
# Renaming the symbols in a layout cache

The key of a layout lists its fields in ascending order, so keys are sorted anew when they are
renamed. A valid cache answers a request for renamed fields with the renamed instance, and keeps the
renamed instances from then on (`LayoutCache.Valid.construct_rename`). The operations that make
tuples with the help of a cache inherit this (`Tuple.slicePositional_rename`,
`Tuple.projectNamed_rename`).

Requests that name a field twice are left out: the error is about the least such field, and which
one that is depends on the numbers.
-/

namespace TaggedTuple

variable {α β : Type} (r : Symbol ↪ Symbol)

/-! ### Keys -/

/-- The key with renamed fields, in their new order, and with a renamed tag. -/
def LayoutKey.rename (k : LayoutKey) : LayoutKey :=
  { positional := k.positional, tag := k.tag.map r, fields := sortByKey id (k.fields.map r) }

/-- The key of a renamed layout is the renamed key. -/
theorem Layout.key_rename (l : Layout) : (l.rename r).key = l.key.rename r := by
  have hfields : (l.rename r).index.symbols = sortByKey id (l.index.symbols.map r) := by
    rw [symbols_index, symbols_index, fields_rename]
    apply (sortByKey_fields_eq_iff (l.fields_nodup.map r.injective)).mpr
    exact ((sortByKey_perm l.fields).symm).map r
  simp [key, LayoutKey.rename, hfields]

/-- Renamed layouts have the same key exactly when the layouts do. -/
theorem Layout.key_rename_eq_iff {l l' : Layout} :
    (l.rename r).key = (l'.rename r).key ↔ l.key = l'.key := by
  rw [key_eq_iff, key_eq_iff, positional_rename, positional_rename, tag_rename, tag_rename,
    fields_rename, fields_rename, List.map_perm_map_iff r.injective,
    (Option.map_injective r.injective).eq_iff]

/-! ### Requests -/

namespace LayoutCache

/-- The cache with renamed instances, kept under renamed keys. -/
def rename (c : LayoutCache) : LayoutCache :=
  { c with entries := c.entries.map (Prod.map (LayoutKey.rename r) (SharedLayout.rename r)) }

variable {c : LayoutCache}

/-- A renamed cache issues a renamed layout as the cache issues the layout. -/
theorem issue_rename (c : LayoutCache) (l : Layout) :
    (c.rename r).issue (l.rename r)
      = Prod.map (SharedLayout.rename r) (rename r) (c.issue l) := rfl

/-- A renamed cache keeps a renamed layout as the cache keeps the layout. -/
theorem register_rename (c : LayoutCache) (key : LayoutKey) (l : Layout) :
    (c.rename r).register (key.rename r) (l.rename r)
      = Prod.map (SharedLayout.rename r) (rename r) (c.register key l) := by
  simp [register, issue, rename, SharedLayout.rename]

/-- A renamed cache finds a renamed layout where the cache finds the layout. -/
theorem lookup_entries_rename (l : Layout) {entries : List (LayoutKey × SharedLayout)}
    (hkeys : ∀ e ∈ entries, e.2.layout.key = e.1) :
    (entries.map (Prod.map (LayoutKey.rename r) (SharedLayout.rename r))).lookup (l.rename r).key
      = (entries.lookup l.key).map (SharedLayout.rename r) := by
  induction entries with
  | nil => rfl
  | cons e entries ih =>
      obtain ⟨key, shared⟩ := e
      obtain rfl : shared.layout.key = key := hkeys _ List.mem_cons_self
      have hbeq : ((l.rename r).key == shared.layout.key.rename r)
          = (l.key == shared.layout.key) := by
        rw [Bool.eq_iff_iff, beq_iff_eq, beq_iff_eq, ← Layout.key_rename, Layout.key_rename_eq_iff]
      rw [List.map_cons, Prod.map_apply, List.lookup_cons, List.lookup_cons, hbeq]
      split
      · rfl
      · exact ih fun e he => hkeys e (List.mem_cons_of_mem _ he)

/-- A renamed key finds the renamed instance. -/
theorem Valid.lookup_rename (hc : c.Valid) (l : Layout) :
    (c.rename r).entries.lookup (l.rename r).key
      = (c.entries.lookup l.key).map (SharedLayout.rename r) :=
  lookup_entries_rename r l hc

/-- A request without repeated fields is answered in the same way under renaming, and leaves the
same cache. -/
theorem Valid.construct_rename (hc : c.Valid) (positional : Nat) {fields : List Symbol}
    (h : fields.Nodup) (tag : Option Symbol) :
    (c.rename r).construct positional (fields.map r) (tag.map r)
      = Prod.map (renameResult (.rename r) (SharedLayout.rename r)) (LayoutCache.rename r)
        (c.construct positional fields tag) := by
  have h' : (fields.map r).Nodup := h.map r.injective
  cases hmode : c.canonicalize with
  | false =>
      rw [construct_of_not_canonicalize hmode h,
        construct_of_not_canonicalize (c := c.rename r) hmode h', ← Layout.rename_declare,
        issue_rename]
      rfl
  | true =>
      rw [construct_of_canonicalize hmode h, construct_of_canonicalize (c := c.rename r) hmode h',
        ← Layout.rename_declare, hc.lookup_rename]
      cases c.entries.lookup (Layout.declare positional h tag).key with
      | some shared => rfl
      | none =>
          rw [Layout.key_rename, Option.map_none]
          dsimp only
          rw [register_rename]
          rfl

/-- A renamed cache answers a positional request with the renamed layout. -/
theorem Valid.positional_rename (hc : c.Valid) (count : Nat) :
    (c.rename r).positional count
      = Prod.map (SharedLayout.rename r) (LayoutCache.rename r) (c.positional count) := by
  have hconstruct := hc.construct_rename r count List.nodup_nil none
  obtain ⟨shared, c', hok, -, -⟩ := hc.exists_construct List.nodup_nil count none
  rw [hok, List.map_nil, Option.map_none] at hconstruct
  simp only [positional, hok, hconstruct]
  rfl

end LayoutCache

/-! ### Tuples made with the help of a cache -/

namespace Tuple

variable (g : α → β) (t : Tuple α) {c : LayoutCache} (hc : c.Valid)
include hc

/-- A slice of a renamed tuple is the renamed slice. -/
theorem slicePositional_rename (start stop : Nat) :
    (t.rename r g).slicePositional start stop (c.rename r)
      = Prod.map (renameResult (.rename r) (Tuple.rename r g)) (LayoutCache.rename r)
        (t.slicePositional start stop c) := by
  have hvalues : ((t.rename r g).positional.take stop).drop start
      = ((t.positional.take stop).drop start).map g := by
    simp
  have hlength : (t.rename r g).positional.length = t.positional.length := by simp
  unfold slicePositional
  rw [hvalues, hlength]
  dsimp only
  rw [List.length_map, hc.positional_rename]
  split_ifs
  · rfl
  · rfl

/-- Projection to distinct fields commutes with renaming. -/
theorem projectNamed_rename {fields : List Symbol} (h : fields.Nodup) :
    (t.rename r g).projectNamed (fields.map r) (c.rename r)
      = Prod.map (renameResult (.rename r) (Tuple.rename r g)) (LayoutCache.rename r)
        (t.projectNamed fields c) := by
  have hconstruct := hc.construct_rename r 0 h none
  obtain ⟨shared, c', hok, -, -⟩ := hc.exists_construct h 0 none
  -- the fields are read in the order of the instance, which may be another than the one asked for
  have hread : (shared.layout.fields.map r).mapM (t.rename r g).getField
      = renameResult (.rename r) (List.map g) (shared.layout.fields.mapM t.getField) := by
    apply renameResult_mapM
    intro f _
    exact getField_rename r g t f
  rw [hok, Option.map_none] at hconstruct
  unfold projectNamed
  rw [hconstruct, hok]
  dsimp only [Prod.map_apply, renameResult_ok]
  rw [show (shared.rename r).layout.fields = shared.layout.fields.map r from rfl, hread]
  cases shared.layout.fields.mapM t.getField with
  | error e => rfl
  | ok values => rfl

end Tuple

end TaggedTuple
