import TaggedTuple.Proofs.Ty.Congruence

/-!
# Unions are as good as their leaves

The leaves of a type are what is left when all unions at its surface are taken apart. Both sides of
a subtype check can be replaced by their leaves: on the left all of them have to pass
(`isSubtype_iff_forall_leaves`), on the right one of them has to accept each leaf that is a scalar
or a tuple type (`isSubtype_iff_exists_leaf`). So nesting, order and repetition of the members of a
union do not matter, nor does a union of one member (`sameLeaves_interchangeable`).
-/

namespace TaggedTuple

namespace Ty

/-! ### Leaves -/

mutual

/-- The types that are no unions of which the type is made up. -/
def leaves : Ty → List Ty
  | .unknown => [.unknown]
  | .void => [.void]
  | .scalar s => [.scalar s]
  | .tuple t => [.tuple t]
  | .union members => leavesEach members

/-- The leaves of all types of a list. -/
def leavesEach : List Ty → List Ty
  | [] => []
  | a :: as => a.leaves ++ leavesEach as

end

/-- The leaves of a union are those of its members. -/
theorem leaves_union (members : List Ty) : leaves (.union members) = members.flatMap leaves := by
  rw [leaves]
  induction members with
  | nil => rfl
  | cons a members ih => rw [leavesEach, ih, List.flatMap_cons]

/-- A leaf of a union is a leaf of one of its members. -/
theorem mem_leaves_union_iff {members : List Ty} {x : Ty} :
    x ∈ leaves (.union members) ↔ ∃ a ∈ members, x ∈ a.leaves := by
  rw [leaves_union, List.mem_flatMap]

/-- The leaves of a well-formed type are well-formed. -/
theorem wellFormed_of_mem_leaves {a x : Ty} (ha : a.WellFormed) (hx : x ∈ a.leaves) :
    x.WellFormed := by
  induction ha with
  | unknown =>
      obtain rfl := List.mem_singleton.mp hx
      exact .unknown
  | void =>
      obtain rfl := List.mem_singleton.mp hx
      exact .void
  | scalar s =>
      obtain rfl := List.mem_singleton.mp hx
      exact .scalar s
  | tuple shape members _ =>
      obtain rfl := List.mem_singleton.mp hx
      exact .tuple shape members
  | union _ ih =>
      obtain ⟨a, ha, hx⟩ := mem_leaves_union_iff.mp hx
      exact ih a ha hx

/-- A leaf is `Unknown`, `Void`, a scalar or a tuple type. -/
theorem cases_of_mem_leaves {a x : Ty} (ha : a.WellFormed) (hx : x ∈ a.leaves) :
    x = unknown ∨ x = void ∨ x.IsAtomic := by
  induction ha with
  | unknown => exact .inl (List.mem_singleton.mp hx)
  | void => exact .inr (.inl (List.mem_singleton.mp hx))
  | scalar s =>
      obtain rfl := List.mem_singleton.mp hx
      exact .inr (.inr (isAtomic_scalar s))
  | tuple _ _ _ =>
      obtain rfl := List.mem_singleton.mp hx
      exact .inr (.inr (isAtomic_tuple _))
  | union _ ih =>
      obtain ⟨a, ha, hx⟩ := mem_leaves_union_iff.mp hx
      exact ih a ha hx

/-- The leaves of both types are the same set, up to equality of types. -/
def SameLeaves (a b : Ty) : Prop :=
  (∀ x ∈ a.leaves, ∃ y ∈ b.leaves, (x == y) = true) ∧
    ∀ y ∈ b.leaves, ∃ x ∈ a.leaves, (x == y) = true

instance (a b : Ty) : Decidable (SameLeaves a b) := inferInstanceAs (Decidable (_ ∧ _))

/-- Having the same leaves is symmetric. -/
theorem SameLeaves.symm {a b : Ty} (ha : a.WellFormed) (hb : b.WellFormed) (h : SameLeaves a b) :
    SameLeaves b a := by
  have hsymm : ∀ x ∈ a.leaves, ∀ y ∈ b.leaves, (x == y) = true → (y == x) = true := by
    intro x hx y hy
    exact beq_symm (wellFormed_of_mem_leaves ha hx) (wellFormed_of_mem_leaves hb hy)
  constructor
  · intro y hy
    obtain ⟨x, hx, hxy⟩ := h.2 y hy
    exact ⟨x, hx, hsymm x hx y hy hxy⟩
  · intro x hx
    obtain ⟨y, hy, hxy⟩ := h.1 x hx
    exact ⟨y, hy, hsymm x hx y hy hxy⟩

/-! ### Subtyping by leaves -/

variable {policy : TuplePolicy}

/-- A type is below what all its leaves are below. -/
theorem isSubtype_iff_forall_leaves {a b : Ty} (ha : a.WellFormed) :
    isSubtype policy a b = true ↔ ∀ x ∈ a.leaves, isSubtype policy x b = true := by
  induction ha with
  | unknown => simp [leaves]
  | void => simp [leaves]
  | scalar s => simp [leaves]
  | tuple _ _ _ => simp [leaves]
  | @union members _ ih =>
      rw [isSubtype_union_left]
      constructor
      · intro h x hx
        obtain ⟨a, ha, hx⟩ := mem_leaves_union_iff.mp hx
        exact (ih a ha).mp (h a ha) x hx
      · intro h a ha
        apply (ih a ha).mpr
        intro x hx
        exact h x (mem_leaves_union_iff.mpr ⟨a, ha, hx⟩)

/-- An atomic type is below a type when it is below one of its leaves. -/
theorem isSubtype_iff_exists_leaf {x b : Ty} (hx : x.IsAtomic) (hb : b.WellFormed) :
    isSubtype policy x b = true ↔ ∃ y ∈ b.leaves, isSubtype policy x y = true := by
  induction hb with
  | unknown => simp [leaves]
  | void => simp [leaves]
  | scalar s => simp [leaves]
  | tuple _ _ _ => simp [leaves]
  | @union members _ ih =>
      rw [isSubtype_union_right hx]
      constructor
      · rintro ⟨b, hb, hxb⟩
        obtain ⟨y, hy, hxy⟩ := (ih b hb).mp hxb
        exact ⟨y, mem_leaves_union_iff.mpr ⟨b, hb, hy⟩, hxy⟩
      · rintro ⟨y, hy, hxy⟩
        obtain ⟨b, hb, hy⟩ := mem_leaves_union_iff.mp hy
        exact ⟨b, hb, (ih b hb).mpr ⟨y, hy, hxy⟩⟩

/-! ### Types with the same leaves -/

section interchange

variable {a b t : Ty} (ha : a.WellFormed) (hb : b.WellFormed) (ht : t.WellFormed)
include ha hb ht

/-- With fewer leaves a type has more supertypes. -/
theorem isSubtype_left_of_leaves (h : ∀ y ∈ b.leaves, ∃ x ∈ a.leaves, (x == y) = true)
    (hat : isSubtype policy a t = true) : isSubtype policy b t = true := by
  rw [isSubtype_iff_forall_leaves ha] at hat
  rw [isSubtype_iff_forall_leaves hb]
  intro y hy
  obtain ⟨x, hx, hxy⟩ := h y hy
  have hagree : x.Agree y :=
    ⟨wellFormed_of_mem_leaves ha hx, wellFormed_of_mem_leaves hb hy, hxy⟩
  rw [← hagree.isSubtype_eq (.refl ht)]
  exact hat x hx

/-- With more leaves a type has more subtypes. -/
theorem isSubtype_right_of_leaves (h : ∀ x ∈ a.leaves, ∃ y ∈ b.leaves, (x == y) = true)
    (hta : isSubtype policy t a = true) : isSubtype policy t b = true := by
  rw [isSubtype_iff_forall_leaves ht] at hta ⊢
  intro z hz
  rcases cases_of_mem_leaves ht hz with rfl | rfl | hatomic
  · exact isSubtype_unknown_left b
  · exact isSubtype_void_left b
  · obtain ⟨x, hx, hzx⟩ := (isSubtype_iff_exists_leaf hatomic ha).mp (hta z hz)
    obtain ⟨y, hy, hxy⟩ := h x hx
    have hagree : x.Agree y :=
      ⟨wellFormed_of_mem_leaves ha hx, wellFormed_of_mem_leaves hb hy, hxy⟩
    apply (isSubtype_iff_exists_leaf hatomic hb).mpr
    refine ⟨y, hy, ?_⟩
    rw [← Agree.isSubtype_eq (.refl (wellFormed_of_mem_leaves ht hz)) hagree]
    exact hzx

end interchange

/-- Types with the same leaves have the same subtypes and supertypes, and are equivalent to the same
types. -/
theorem sameLeaves_interchangeable (policy : TuplePolicy) {a b t : Ty} (ha : a.WellFormed)
    (hb : b.WellFormed) (ht : t.WellFormed) (h : SameLeaves a b) :
    isSubtype policy a t = isSubtype policy b t ∧ isSubtype policy t a = isSubtype policy t b ∧
      isEquivalent policy a t = isEquivalent policy b t := by
  have h' : SameLeaves b a := h.symm ha hb
  have hleft : isSubtype policy a t = isSubtype policy b t := by
    rw [Bool.eq_iff_iff]
    exact ⟨isSubtype_left_of_leaves ha hb ht h.2, isSubtype_left_of_leaves hb ha ht h'.2⟩
  have hright : isSubtype policy t a = isSubtype policy t b := by
    rw [Bool.eq_iff_iff]
    exact ⟨isSubtype_right_of_leaves ha hb ht h.1, isSubtype_right_of_leaves hb ha ht h'.1⟩
  refine ⟨hleft, hright, ?_⟩
  rw [Bool.eq_iff_iff, isEquivalent_iff ha ht, isEquivalent_iff hb ht, hleft, hright]

/-- A nested union with repetitions and an empty union, and a flat one in another order whose record
declares its fields the other way around. -/
theorem sameLeaves_interchangeable_of_nested_unions :
    let policy : TuplePolicy := ⟨.untaggedAcceptsAny, .extensible⟩
    let record := tuple ⟨⟨0, 0, .ascendingPair 0⟩, [], [scalar .int, scalar .str]⟩
    let reversed := tuple ⟨⟨0, 1, .descendingPair 0⟩, [], [scalar .str, scalar .int]⟩
    let a := union [union [record, union []], union [union [void], scalar .nil], record]
    let b := union [scalar .nil, void, union [reversed]]
    let t := union [scalar .nil, union [reversed]]
    SameLeaves a b ∧ isSubtype policy t b = true ∧
      isSubtype policy a t = isSubtype policy b t ∧ isSubtype policy t a = isSubtype policy t b ∧
      isEquivalent policy a t = isEquivalent policy b t := by
  intro policy record reversed a b t
  have hwf : a.WellFormed ∧ b.WellFormed ∧ t.WellFormed := by
    simp [a, b, t, record, reversed, Tuple.members, Tuple.wellFormed_iff, Tuple.layout,
      Layout.ascendingPair, Layout.descendingPair]
  obtain ⟨ha, hb, ht⟩ := hwf
  have hleaves : SameLeaves a b := by decide
  have htb : isSubtype policy t b = true := by with_unfolding_all rfl
  exact ⟨hleaves, htb, sameLeaves_interchangeable policy ha hb ht hleaves⟩

end Ty

end TaggedTuple
