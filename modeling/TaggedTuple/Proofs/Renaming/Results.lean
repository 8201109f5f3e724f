import Mathlib.Logic.Equiv.Basic
import TaggedTuple.Proofs.Renaming.Canonical
import TaggedTuple.Proofs.Renaming.Matching
import TaggedTuple.Proofs.Renaming.Ty

/-!
# Results do not depend on the order in which names are interned

A symbol is the number that its name got when it was first seen, so another order of interning
renames the symbols of everything. `results_independent_of_interning` collects what the operations
do then: results are renamed and otherwise the same. It is put together from the lemmas of each
operation; nothing in it relates the order of symbols as numbers before and after the renaming.
-/

namespace TaggedTuple

/-- Tuples, matches, verdicts on types and canonical forms under a renaming `r` of all symbols. The
members of a tuple are arbitrary, and renamed by a function `g`, as far as the operation does not
look at them; values, patterns and types are renamed at every depth. -/
theorem results_independent_of_interning (r : Symbol ↪ Symbol) :
    -- equality of tuples, and of the values and types made of them
    (∀ (α β : Type) [BEq α] [BEq β] (g : α → β) (t u : Tuple α), t.WellFormed → u.WellFormed →
      (∀ a ∈ t.members, ∀ b ∈ u.members, (g a == g b) = (a == b)) →
      (t.rename r g == u.rename r g) = (t == u)) ∧
    (∀ v w : Value, v.WellFormed → w.WellFormed → (v.rename r == w.rename r) = (v == w)) ∧
    (∀ a b : Ty, a.WellFormed → b.WellFormed → (a.rename r == b.rename r) = (a == b)) ∧
    -- access, construction and updates
    (∀ (α β : Type) (g : α → β) (t : Tuple α) (f : Symbol),
      (t.rename r g).getField (r f) = renameResult (.rename r) g (t.getField f)) ∧
    (∀ (α β : Type) (g : α → β) (shared : SharedLayout) (positional : List α)
      (named : List (Symbol × α)),
      Tuple.construct (shared.rename r) (positional.map g) (named.map (Prod.map r g))
        = renameResult (.rename r) (.rename r g) (Tuple.construct shared positional named)) ∧
    (∀ (α β : Type) (g : α → β) (t : Tuple α) (key : TupleKey) (a : α),
      (t.rename r g).withUpdated (key.rename r) (g a)
        = renameResult (.rename r) (.rename r g) (t.withUpdated key a)) ∧
    -- matches, which also leave the renamed cache
    (∀ (t : Tuple Value) (c : LayoutCache), c.Valid →
      (∀ p : TuplePattern Pattern,
        (p.rename r (.rename r)).matchTuple (t.rename r (.rename r)) (c.rename r)
          = Prod.map (renameResult (.rename r) (.rename r (.rename r))) (.rename r)
            (p.matchTuple t c)) ∧
      ∀ arms : List (TuplePattern Pattern),
        TuplePattern.matchArms (arms.map (.rename r (.rename r))) (t.rename r (.rename r))
            (c.rename r)
          = Prod.map (renameResult (.rename r) (Option.map (.rename r (.rename r)))) (.rename r)
            (TuplePattern.matchArms arms t c)) ∧
    -- verdicts on types
    (∀ (policy : TuplePolicy) (a b : Ty), a.WellFormed → b.WellFormed →
      Ty.isSubtype policy (a.rename r) (b.rename r) = Ty.isSubtype policy a b ∧
      Ty.isEquivalent policy (a.rename r) (b.rename r) = Ty.isEquivalent policy a b) ∧
    -- canonical forms, when renamed symbols have the names of the old ones
    ∀ names names' : Symbol.Names, (∀ s, names' (r s) = names s) →
      (∀ (α β : Type) (g : α → β) (t : Tuple α),
        (t.rename r g).toCanonical names'
          = renameResult (.rename r) (.map g) (t.toCanonical names)) ∧
      ∀ v : Value, v.WellFormed →
        (v.rename r).canonical names' = renameResult (.rename r) id (v.canonical names) := by
  refine ⟨?_, ?_, ?_, ?_, ?_, ?_, ?_, ?_, ?_⟩
  · intro α β _ _ g t u ht hu hg
    exact Tuple.beq_rename r g ht hu hg
  · intro v w hv hw
    exact Value.beq_rename hv hw
  · intro a b ha hb
    exact Ty.beq_rename ha hb
  · intro α β g t f
    exact Tuple.getField_rename r g t f
  · intro α β g shared positional named
    exact Tuple.construct_rename r g shared positional named
  · intro α β g t key a
    exact Tuple.withUpdated_rename r g t key a
  · intro t c hc
    exact ⟨TuplePattern.matchTuple_rename r hc t, TuplePattern.matchArms_rename r hc t⟩
  · intro policy a b ha hb
    exact ⟨Ty.isSubtype_rename ha hb, Ty.isEquivalent_rename ha hb⟩
  · intro names names' hnames
    constructor
    · intro α β g t
      exact Tuple.toCanonical_rename hnames g t
    · intro v hv
      exact Value.canonical_rename r hnames hv

/-- The symbols of two names that were interned in the other order. -/
def swapped : Symbol ↪ Symbol := (Equiv.swap ⟨1⟩ ⟨2⟩).toEmbedding

/-- The names `x` and `y` in one order. -/
def namesInOrder : Symbol.Names := fun s =>
  if s = ⟨1⟩ then some "x" else if s = ⟨2⟩ then some "y" else none

/-- The names `x` and `y` in the other order. -/
def namesSwapped : Symbol.Names := fun s =>
  if s = ⟨1⟩ then some "y" else if s = ⟨2⟩ then some "x" else none

/-- The swapped symbols have the names of the old ones. -/
theorem namesSwapped_swapped (s : Symbol) : namesSwapped (swapped s) = namesInOrder s := by
  by_cases hx : s = ⟨1⟩
  · subst hx
    rfl
  by_cases hy : s = ⟨2⟩
  · subst hy
    rfl
  have hs : swapped s = s := Equiv.swap_apply_of_ne_of_ne hx hy
  simp [namesInOrder, namesSwapped, hs, hx, hy]

/-- A record with its fields in ascending order. -/
def ascendingRecord (x y : Value) : Tuple Value := ⟨⟨0, 0, .ascendingPair 0⟩, [], [x, y]⟩

/-- A record with its fields in descending order. -/
def descendingRecord (x y : Value) : Tuple Value := ⟨⟨0, 1, .descendingPair 0⟩, [], [y, x]⟩

/-- The record of the example is well-formed. -/
theorem wellFormed_ascendingRecord {x y : Value} (hx : x.WellFormed) (hy : y.WellFormed) :
    (Value.tuple (ascendingRecord x y)).WellFormed := by
  simp [ascendingRecord, Value.wellFormed_tuple_iff, Tuple.members, Tuple.wellFormed_iff,
    Tuple.layout, Layout.ascendingPair, hx, hy]

/-- The record of the example is well-formed in the other order too. -/
theorem wellFormed_descendingRecord {x y : Value} (hx : x.WellFormed) (hy : y.WellFormed) :
    (Value.tuple (descendingRecord x y)).WellFormed := by
  simp [descendingRecord, Value.wellFormed_tuple_iff, Tuple.members, Tuple.wellFormed_iff,
    Tuple.layout, Layout.descendingPair, hx, hy]

/-- Ascending order is reversed by the renaming, in a nested record and in the one that is captured,
and every result is still the renamed one. -/
theorem results_independent_of_interning_of_swapped_fields :
    let r := swapped
    let inner : Tuple Value := ascendingRecord (.int 7) (.str "a")
    let t := ascendingRecord (.int 1) (.tuple inner)
    let u := descendingRecord (.int 1) (.tuple inner)
    let a : Ty := .tuple ⟨t.shared, [], [.scalar .int, .scalar .str]⟩
    let b : Ty := .tuple ⟨u.shared, [], [.unknown, .scalar .int]⟩
    let c := LayoutCache.empty 2 true
    let p : TuplePattern Pattern := { namedRest := some ⟨6⟩ }
    (Value.tuple t == .tuple u) = true ∧
      ((Value.tuple t).rename r == (Value.tuple u).rename r) = true ∧
      (t.rename r (Value.rename r)).getField (r ⟨1⟩) = .ok (.int 1) ∧
      Tuple.construct (t.shared.rename r) [] [(r ⟨1⟩, 5), (r ⟨3⟩, 6)]
        = .error (.unknownField (r ⟨3⟩)) ∧
      (t.rename r id).withUpdated (.field (r ⟨1⟩)) (.int 3)
        = .ok (Tuple.rename r id { t with values := [.int 3, .tuple inner] }) ∧
      (p.rename r (.rename r)).matchTuple (t.rename r (.rename r)) (c.rename r)
        = Prod.map (renameResult (.rename r) (.rename r (.rename r))) (.rename r)
          (p.matchTuple t c) ∧
      Ty.isSubtype {} (a.rename r) (b.rename r) = true ∧
      ((Value.tuple t).rename r).canonical namesSwapped
        = renameResult (.rename r) id ((Value.tuple t).canonical namesInOrder) := by
  intro r inner t u a b c p
  have hinner := wellFormed_ascendingRecord (.int 7) (.str "a")
  have ht := wellFormed_ascendingRecord (.int 1) hinner
  have hu := wellFormed_descendingRecord (.int 1) hinner
  have ha : a.WellFormed ∧ b.WellFormed := by
    simp [a, b, t, u, ascendingRecord, descendingRecord, Tuple.members, Tuple.wellFormed_iff,
      Tuple.layout, Layout.ascendingPair, Layout.descendingPair]
  have htu : (Value.tuple t == .tuple u) = true := by decide
  have hab : Ty.isSubtype {} a b = true := by with_unfolding_all rfl
  have hfield : t.getField ⟨1⟩ = .ok (.int 1) := by with_unfolding_all rfl
  have herror : Tuple.construct t.shared [] [(⟨1⟩, 5), (⟨3⟩, 6)] = .error (.unknownField ⟨3⟩) := by
    with_unfolding_all rfl
  have hupdated : t.withUpdated (.field ⟨1⟩) (.int 3)
      = .ok { t with values := [.int 3, .tuple inner] } := by
    with_unfolding_all rfl
  obtain ⟨-, hvalue, -, hget, hconstruct, hupdate, hmatch, hverdict, hcanonical⟩ :=
    results_independent_of_interning r
  refine ⟨htu, (hvalue _ _ ht hu).trans htu, ?_, ?_, ?_, ?_, ?_, ?_⟩
  · rw [hget Value Value (.rename r) t ⟨1⟩, hfield, renameResult_ok, Value.rename_int]
  · refine (hconstruct Nat Nat id t.shared [] [(⟨1⟩, 5), (⟨3⟩, 6)]).trans ?_
    rw [herror]
    rfl
  · refine (hupdate Value Value id t (.field ⟨1⟩) (.int 3)).trans ?_
    rw [hupdated, renameResult_ok]
  · exact (hmatch t c (LayoutCache.valid_empty 2 true)).1 p
  · exact (hverdict {} a b ha.1 ha.2).1.trans hab
  · exact (hcanonical namesInOrder namesSwapped namesSwapped_swapped).2 _ ht

end TaggedTuple
