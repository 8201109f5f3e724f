import TaggedTuple.Proofs.Canonical.Loading

/-!
# Which canonical forms are loaded

A canonical form can be made by hand or come out of foreign bytes, so nothing says that its names
are in order, that they differ, or that it declares as many positional members as it holds. A form
is consistent when the last two are true (`CanonicalTuple.Consistent`). As long as the table has
room for their names, the consistent forms are the ones that are loaded, and the tuple that comes
out has the same form again with its names in order (`CanonicalTuple.toTuple_ok_iff_consistent`).

Repeated names are found by their symbols, after all names were interned. A symbol stands among the
interned ones as often as its name stands in the form (`count_keys_of_entryNamed`), so the symbol in
the error has a name that repeats.
-/

namespace TaggedTuple

variable {α : Type}

/-- A symbol is interned as often as its name occurs. -/
theorem count_keys_of_entryNamed {names : Symbol.Names} {l : List (String × α)}
    {l' : List (Symbol × α)} (h : List.Forall₂ (EntryNamed names) l l')
    (hinjective : ∀ s s' name, names s = some name → names s' = some name → s = s') {f : Symbol}
    {name : String} (hf : names f = some name) :
    (l'.map Prod.fst).count f = (l.map Prod.fst).count name := by
  induction h with
  | nil => rfl
  | @cons m e l l' hme _ ih =>
      have hsame : e.1 = f ↔ m.1 = name := by
        constructor
        · rintro rfl
          exact Option.some.inj (hme.1.symm.trans hf)
        · rintro rfl
          exact hinjective _ _ _ hme.1 hf
      simp only [List.map_cons, List.count_cons, ih, beq_iff_eq, hsame]

namespace CanonicalTuple

/-- The form holds as many positional members as it declares, and no name comes up twice. -/
structure Consistent (x : CanonicalTuple α) : Prop where
  length_positional : x.positional.length = x.positionalCount.toNat
  nodup_names : (x.named.map Prod.fst).Nodup

instance (x : CanonicalTuple α) : Decidable x.Consistent :=
  decidable_of_iff (x.positional.length = x.positionalCount.toNat ∧ (x.named.map Prod.fst).Nodup)
    ⟨fun h => ⟨h.1, h.2⟩, fun h => ⟨h.1, h.2⟩⟩

variable {x : CanonicalTuple α} {table : SymbolTable} {cache : LayoutCache}

/-- The symbol of a name that repeats. -/
theorem duplicate_of_leastRepeated (htable : table.Valid) {f : Symbol}
    (hf : LeastRepeated ((x.interned table).1.named.map Prod.fst) f) :
    ∃ name, (x.interned table).2.name? f = some name ∧
      List.Duplicate name (x.named.map Prod.fst) := by
  obtain ⟨-, -, hentries⟩ := x.interned_named htable
  have hmem : f ∈ (x.interned table).1.named.map Prod.fst := by
    rw [← List.count_pos_iff]
    exact Nat.lt_of_lt_of_le Nat.two_pos hf.repeated
  obtain ⟨name, hname⟩ := Option.isSome_iff_exists.mp (isSome_of_entryNamed hentries f hmem)
  refine ⟨name, hname, List.duplicate_iff_two_le_count.mpr ?_⟩
  rw [← count_keys_of_entryNamed hentries
    (fun _ _ _ => (x.interned_valid htable).name?_injective) hname]
  exact hf.repeated

/-- Where there is room for their names, exactly the consistent forms are loaded. A form that is
loaded gives a tuple with the form in the order of its names. A wrong count is found before anything
is interned; a name that repeats is found after that, and is in the error; so is the size of a table
that has no number left for a name. No symbol changes its name, and all new names are those of the
form. -/
theorem toTuple_ok_iff_consistent (x : CanonicalTuple α) (htable : table.Valid)
    (hcache : cache.Valid) :
    (x.FitsIn table →
      ((∃ t table' cache', x.toTuple table cache = (.ok t, table', cache')) ↔ x.Consistent)) ∧
    (∀ t table' cache', x.toTuple table cache = (.ok t, table', cache') →
      t.WellFormed ∧ t.toCanonical table'.name? = .ok x.sorted) ∧
    (x.positional.length ≠ x.positionalCount.toNat → x.toTuple table cache
      = (.error (.positionalCount x.positionalCount.toNat x.positional.length), table, cache)) ∧
    (x.positional.length = x.positionalCount.toNat → x.FitsIn table →
      ¬(x.named.map Prod.fst).Nodup →
      ∃ f name table', x.toTuple table cache
          = (.error (.tuple (.duplicateField f)), table', cache) ∧
        table'.name? f = some name ∧ List.Duplicate name (x.named.map Prod.fst)) ∧
    (x.positional.length = x.positionalCount.toNat → ¬x.FitsIn table →
      ∃ table', x.toTuple table cache = (.error (.intern (.overflow table'.size)), table', cache) ∧
        SymbolTable.capacity ≤ table'.size) ∧
    table.Extends (x.toTuple table cache).2.1 ∧
    ∀ name, name ∈ (x.toTuple table cache).2.1.names.toList →
      name ∈ table.names.toList ∨ x.Mentions name := by
  have hgrows := x.grows_toTuple table cache
  have hkept := And.intro hgrows.extends_names hgrows.new
  by_cases hcount : x.positional.length = x.positionalCount.toNat
  · by_cases hfits : x.FitsIn table
    · rcases toTuple_cases htable hcache hcount hfits with
        ⟨f, hf, hload⟩ | ⟨hnodup, u, cache', hload, hu, hdescribes⟩
      · -- the symbols repeat only where the names do
        obtain ⟨name, hname, hduplicate⟩ := duplicate_of_leastRepeated htable hf
        rw [hload] at hkept ⊢
        refine ⟨fun _ => ⟨nofun, fun hx => ?_⟩, nofun, fun hne => absurd hcount hne,
          fun _ _ _ => ⟨f, name, _, rfl, hname, hduplicate⟩, fun _ hfull => absurd hfits hfull,
          hkept⟩
        exact absurd hx.nodup_names hduplicate.not_nodup
      · rw [hload] at hkept ⊢
        refine ⟨fun _ => ⟨fun _ => ⟨hcount, hnodup⟩, fun _ => ⟨u, _, cache', rfl⟩⟩, ?_,
          fun hne => absurd hcount hne, fun _ _ hrepeated => absurd hnodup hrepeated,
          fun _ hfull => absurd hfits hfull, hkept⟩
        rintro t table' cache'' ⟨⟩
        exact ⟨hu, (Tuple.toCanonical_eq_ok_iff (x.interned_valid htable) hu).mpr hdescribes⟩
    · -- the names before the one that was refused stay in the table
      obtain ⟨left, hload, hfull, -⟩ := toTuple_eq_error cache hcount hfits
      rw [hload] at hkept ⊢
      exact ⟨fun hroom => absurd hroom hfits, nofun, fun hne => absurd hcount hne,
        fun _ hroom => absurd hroom hfits, fun _ _ => ⟨left, rfl, hfull⟩, hkept⟩
  · rw [toTuple_of_count_ne table cache hcount] at hkept ⊢
    exact ⟨fun _ => ⟨nofun, fun hx => absurd hx.length_positional hcount⟩, nofun, fun _ => rfl,
      fun heq => absurd heq hcount, fun heq => absurd heq hcount, hkept⟩

/-- A form whose names are out of order, one of them empty and one that of the tag, a form with a
name that repeats, and one that declares a member too many, in a table that knows some of the
names. -/
theorem toTuple_ok_iff_consistent_of_forms :
    let table := (SymbolTable.empty.internAll ["y"]).2
    let cache := LayoutCache.empty 1 true
    let unordered : CanonicalTuple Nat := ⟨some "x", 1, [7], [("x", 1), ("", 2)]⟩
    let repeated : CanonicalTuple Nat := ⟨none, 0, [], [("x", 1), ("y", 2), ("x", 3)]⟩
    let miscounted : CanonicalTuple Nat := ⟨none, 2, [7], []⟩
    (∃ t table' cache', unordered.toTuple table cache = (.ok t, table', cache') ∧
      t.toCanonical table'.name? = .ok { unordered with named := [("", 2), ("x", 1)] }) ∧
    (∃ f table', repeated.toTuple table cache
        = (.error (.tuple (.duplicateField f)), table', cache) ∧
      table'.name? f = some "x") ∧
    miscounted.toTuple table cache = (.error (.positionalCount 2 1), table, cache) := by
  intro table cache unordered repeated miscounted
  have htable : table.Valid := SymbolTable.valid_empty.internAll _
  have hcache : cache.Valid := LayoutCache.valid_empty 1 true
  have hsize : table.size + 1 + 3 ≤ SymbolTable.capacity := by decide
  obtain ⟨hload, hform, -⟩ := unordered.toTuple_ok_iff_consistent htable hcache
  obtain ⟨-, -, -, hrepeated, -⟩ := repeated.toTuple_ok_iff_consistent htable hcache
  obtain ⟨-, -, hmiscounted, -⟩ := miscounted.toTuple_ok_iff_consistent htable hcache
  refine ⟨?_, ?_, hmiscounted (by decide)⟩
  · have hroom : unordered.FitsIn table := fitsIn_of_size_le (Nat.le_of_succ_le hsize)
    obtain ⟨t, table', cache', ht⟩ := (hload hroom).mpr (by decide)
    exact ⟨t, table', cache', ht, (hform t table' cache' ht).2⟩
  · obtain ⟨f, name, table', herror, hname, hduplicate⟩ :=
      hrepeated (by decide) (fitsIn_of_size_le hsize) (by decide)
    refine ⟨f, table', herror, ?_⟩
    -- the other name of the form stands there once
    have hcount := List.duplicate_iff_two_le_count.mp hduplicate
    rcases List.mem_map.mp hduplicate.mem with ⟨m, hm, rfl⟩
    have hx : ∀ m ∈ repeated.named, 2 ≤ (repeated.named.map Prod.fst).count m.1 → m.1 = "x" := by
      decide
    rw [hname, hx m hm hcount]

end CanonicalTuple

end TaggedTuple
