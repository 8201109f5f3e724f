import TaggedTuple.Proofs.Tuple.Built
import TaggedTuple.Proofs.Tuple.Extensionality
import TaggedTuple.Proofs.Ty.Order
import TaggedTuple.Proofs.Value.Equality

/-!
# Equality and hashing of nested tuples

The laws that tuples inherit from their members hold of values and of types at every depth, by
induction on the left side: equality is an equivalence relation (`Value.equalityOn`,
`Ty.equalityOn`), and equal ones feed the same sequence to a hash function
(`Value.hashFeed_eq_of_beq`, `Ty.hashFeed_eq_of_beq`).

`Tuple.equality_laws` puts them next to the laws of equality of tuples over any members.
-/

namespace TaggedTuple

/-! ### Values -/

namespace Value

/-- Equality of well-formed values is an equivalence. -/
theorem equalityOn : EqualityOn Value.WellFormed where
  refl := beq_refl
  symm := beq_symm
  trans := beq_trans

/-- Equal values feed a hash alike. -/
theorem hashFeed_eq_of_beq {a b : Value} (ha : a.WellFormed) (hb : b.WellFormed)
    (h : (a == b) = true) : a.hashFeed = b.hashFeed := by
  induction ha generalizing b with
  | int n => rw [int_beq_iff.mp h]
  | str s => rw [str_beq_iff.mp h]
  | tuple shape _ ih =>
      obtain ⟨u, rfl, htu⟩ := tuple_beq_iff.mp h
      obtain ⟨shape', members'⟩ := wellFormed_tuple_iff.mp hb
      rw [hashFeed_tuple, hashFeed_tuple]
      congr 1
      apply Tuple.hashFeed_map_eq_of_beq shape shape' _ htu
      intro a ha b hb hab
      exact ih a ha (members' b hb) hab

end Value

/-! ### Types -/

namespace Ty

/-- Only the unknown type is equal to it. -/
theorem unknown_beq_iff {b : Ty} : (unknown == b) = true ↔ b = unknown := isUnknown_iff

/-- Only the void type is equal to it. -/
theorem void_beq_iff {b : Ty} : (void == b) = true ↔ b = void := by
  show b.isVoid = true ↔ _
  cases b <;> simp [isVoid]

/-- A well-formed type is equal to itself. -/
theorem beq_refl {a : Ty} (ha : a.WellFormed) : (a == a) = true := by
  induction ha with
  | unknown => exact unknown_beq_iff.mpr rfl
  | void => exact void_beq_iff.mpr rfl
  | scalar s => exact scalar_beq_iff.mpr rfl
  | tuple shape _ ih =>
      refine tuple_beq_iff.mpr ⟨_, rfl, ?_⟩
      rw [Tuple.beq_iff shape shape]
      exact Tuple.Rel.refl ih
  | union _ ih => exact union_beq_iff.mpr ⟨_, rfl, List.forall₂_same.mpr ih⟩

/-- Equality of well-formed types is symmetric. -/
theorem beq_symm {a b : Ty} (ha : a.WellFormed) (hb : b.WellFormed) (h : (a == b) = true) :
    (b == a) = true := by
  induction ha generalizing b with
  | unknown => rw [unknown_beq_iff.mp h]; exact unknown_beq_iff.mpr rfl
  | void => rw [void_beq_iff.mp h]; exact void_beq_iff.mpr rfl
  | scalar s => rw [scalar_beq_iff.mp h]; exact scalar_beq_iff.mpr rfl
  | tuple shape _ ih =>
      obtain ⟨u, rfl, htu⟩ := tuple_beq_iff.mp h
      obtain ⟨shape', members'⟩ := wellFormed_tuple_iff.mp hb
      refine tuple_beq_iff.mpr ⟨_, rfl, ?_⟩
      rw [Tuple.beq_iff shape shape'] at htu
      rw [Tuple.beq_iff shape' shape]
      exact htu.flip.imp fun b hb a ha hab => ih a ha (members' b hb) hab
  | union _ ih =>
      obtain ⟨others, rfl, hforall⟩ := union_beq_iff.mp h
      have each' := wellFormed_union_iff.mp hb
      refine union_beq_iff.mpr ⟨_, rfl, ?_⟩
      exact forall₂_imp hforall.flip fun b hb a ha hab => ih a ha (each' b hb) hab

/-- Equality of well-formed types is transitive. -/
theorem beq_trans {a b c : Ty} (ha : a.WellFormed) (hb : b.WellFormed) (hc : c.WellFormed)
    (hab : (a == b) = true) (hbc : (b == c) = true) : (a == c) = true := by
  induction ha generalizing b c with
  | unknown => rwa [unknown_beq_iff.mp hab] at hbc
  | void => rwa [void_beq_iff.mp hab] at hbc
  | scalar s => rwa [scalar_beq_iff.mp hab] at hbc
  | tuple shape _ ih =>
      obtain ⟨u, rfl, htu⟩ := tuple_beq_iff.mp hab
      obtain ⟨v, rfl, huv⟩ := tuple_beq_iff.mp hbc
      obtain ⟨shape', members'⟩ := wellFormed_tuple_iff.mp hb
      obtain ⟨shape'', members''⟩ := wellFormed_tuple_iff.mp hc
      refine tuple_beq_iff.mpr ⟨v, rfl, ?_⟩
      rw [Tuple.beq_iff shape shape'] at htu
      rw [Tuple.beq_iff shape' shape''] at huv
      rw [Tuple.beq_iff shape shape'']
      exact htu.trans huv fun a ha b hb c hc hab hbc =>
        ih a ha (members' b hb) (members'' c hc) hab hbc
  | union _ ih =>
      obtain ⟨others, rfl, hforall⟩ := union_beq_iff.mp hab
      obtain ⟨others', rfl, hforall'⟩ := union_beq_iff.mp hbc
      have each' := wellFormed_union_iff.mp hb
      have each'' := wellFormed_union_iff.mp hc
      refine union_beq_iff.mpr ⟨others', rfl, ?_⟩
      exact forall₂_trans hforall hforall' fun a ha b hb c hc hab hbc =>
        ih a ha (each' b hb) (each'' c hc) hab hbc

/-- Equality of well-formed types is an equivalence. -/
theorem equalityOn : EqualityOn Ty.WellFormed where
  refl := beq_refl
  symm := beq_symm
  trans := beq_trans

/-- A union feeds a hash with its kind, the number of its members and the members. -/
theorem hashFeed_union (members : List Ty) :
    hashFeed (.union members) = .ofNat 9 ++ .ofList (members.map hashFeed) := by
  rw [hashFeed, hashFeedEach_eq_map]

/-- Equal types feed a hash alike. -/
theorem hashFeed_eq_of_beq {a b : Ty} (ha : a.WellFormed) (hb : b.WellFormed)
    (h : (a == b) = true) : a.hashFeed = b.hashFeed := by
  induction ha generalizing b with
  | unknown => rw [unknown_beq_iff.mp h]
  | void => rw [void_beq_iff.mp h]
  | scalar s => rw [scalar_beq_iff.mp h]
  | tuple shape _ ih =>
      obtain ⟨u, rfl, htu⟩ := tuple_beq_iff.mp h
      obtain ⟨shape', members'⟩ := wellFormed_tuple_iff.mp hb
      rw [hashFeed_tuple, hashFeed_tuple]
      congr 1
      apply Tuple.hashFeed_map_eq_of_beq shape shape' _ htu
      intro a ha b hb hab
      exact ih a ha (members' b hb) hab
  | union _ ih =>
      obtain ⟨others, rfl, hforall⟩ := union_beq_iff.mp h
      have each' := wellFormed_union_iff.mp hb
      rw [hashFeed_union, hashFeed_union]
      congr 2
      exact map_eq_map_of_forall₂ hforall fun a ha b hb hab => ih a ha (each' b hb) hab

end Ty

/-! ### The laws -/

namespace Tuple

/-- Equality of tuples is extensional and does not depend on whether the layout is shared; it is an
equivalence relation when equality of members is; and equal tuples feed the same sequence to a hash
function when equal members do. For values and for types nothing has to be assumed. -/
theorem equality_laws {α : Type} [BEq α] :
    (∀ t u : Tuple α, t.Built → u.Built →
      ((t == u) = true ↔ SameMembers t u) ∧ (t == u) = t.equalByField u ∧
        (t.shared = u.shared → (t.members == u.members) = t.equalByField u)) ∧
    (∀ P : α → Prop, EqualityOn P →
      EqualityOn fun t : Tuple α => t.Built ∧ ∀ a ∈ t.members, P a) ∧
    (∀ (feed : α → HashFeed) (t u : Tuple α), t.Built → u.Built →
      (∀ a ∈ t.members, ∀ b ∈ u.members, (a == b) = true → feed a = feed b) →
      (t == u) = true → (t.map feed).hashFeed = (u.map feed).hashFeed) ∧
    (EqualityOn Value.WellFormed ∧ ∀ a b : Value, a.WellFormed → b.WellFormed →
      (a == b) = true → a.hashFeed = b.hashFeed) ∧
    (EqualityOn Ty.WellFormed ∧ ∀ a b : Ty, a.WellFormed → b.WellFormed →
      (a == b) = true → a.hashFeed = b.hashFeed) := by
  simp only [built_iff]
  refine ⟨fun t u ht hu => ⟨?_, ?_, ?_⟩, fun P hP => equalityOn hP, fun feed t u ht hu => ?_,
    ⟨Value.equalityOn, fun a b => Value.hashFeed_eq_of_beq⟩,
    ⟨Ty.equalityOn, fun a b => Ty.hashFeed_eq_of_beq⟩⟩
  · exact beq_iff_sameMembers ht hu
  · exact beq_eq_equalByField ht hu
  · exact members_beq_eq_equalByField ht hu
  · exact hashFeed_map_eq_of_beq ht hu

/-- A nested pair and the same pair with all fields declared the other way around. -/
theorem equality_laws_of_reordered_fields :
    let inner : Tuple Value := ⟨⟨0, 0, .ascendingPair 0⟩, [], [.int 1, .int 2]⟩
    let reordered : Tuple Value := ⟨⟨1, 0, .descendingPair 0⟩, [], [.int 2, .int 1]⟩
    let t : Tuple Value := ⟨⟨0, 0, .ascendingPair 0⟩, [], [.str "a", .tuple inner]⟩
    let u : Tuple Value := ⟨⟨1, 0, .descendingPair 0⟩, [], [.tuple reordered, .str "a"]⟩
    SameMembers t u ∧ t.equalByField u = true ∧ (t.members == t.members) = t.equalByField t ∧
      (u == t) = true ∧ (Value.tuple t).hashFeed = (Value.tuple u).hashFeed := by
  intro inner reordered t u
  have hwf : (Value.tuple t).WellFormed ∧ (Value.tuple u).WellFormed := by
    simp [t, u, inner, reordered, Value.wellFormed_tuple_iff, Value.WellFormed.int,
      Value.WellFormed.str, Tuple.members, Tuple.wellFormed_iff, Tuple.layout,
      Layout.ascendingPair, Layout.descendingPair]
  obtain ⟨htw, huw⟩ := hwf
  have ht : t.Built := built_iff.mpr (Value.wellFormed_tuple_iff.mp htw).1
  have hu : u.Built := built_iff.mpr (Value.wellFormed_tuple_iff.mp huw).1
  have htu : (t == u) = true := by decide
  have hvalue : (Value.tuple t == Value.tuple u) = true := by rwa [Value.tuple_beq_tuple]
  obtain ⟨hextensional, -, -, ⟨hequality, hfeed⟩, -⟩ := @equality_laws Value _
  obtain ⟨hsame, hfield, -⟩ := hextensional t u ht hu
  refine ⟨hsame.mp htu, hfield ▸ htu, (hextensional t t ht ht).2.2 rfl, ?_, ?_⟩
  · rw [← Value.tuple_beq_tuple]
    exact hequality.symm htw huw hvalue
  · exact hfeed _ _ htw huw hvalue

end Tuple

end TaggedTuple
