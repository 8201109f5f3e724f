import TaggedTuple.Proofs.Ty.Leaves

/-!
# How comparisons depend on the policy

A policy that is relaxed in one part or in both goes on accepting what it accepted
(`isSubtype_and_isEquivalent_of_relaxesTo`). Subtyping is followed along the left type. On the right
of an atomic type any type can be replaced by its leaves, so policies have to be compared on atomic
types only.

Equivalence has rules of its own for tuple types, and they do not look at the policy. On types
without unions nothing else ever looks at it, and equivalence is as strict as equality
(`checkEquivalent_of_unionFree`).
-/

namespace TaggedTuple

/-! ### Relaxing a policy -/

/-- The second policy is the first one, or allows more, in each of its parts. -/
structure TuplePolicy.RelaxesTo (p q : TuplePolicy) : Prop where
  tags : q.tags = p.tags ∨ q.tags = .untaggedAcceptsAny
  width : q.width = p.width ∨ q.width = .extensible

section relax

variable {p q : TuplePolicy} (hpq : p.RelaxesTo q)
include hpq

/-- Tags that a policy allows, the policy it relaxes to allows too. -/
theorem TuplePolicy.RelaxesTo.allows {sub sup : Option Symbol} (h : p.tags.Allows sub sup) :
    q.tags.Allows sub sup := by
  cases h with
  | same => exact .same
  | untagged lenient =>
      refine .untagged ?_
      rcases hpq.tags with htags | htags
      · exact htags.trans lenient
      · exact htags

/-- What stands for a tuple type goes on doing so under a relaxed policy. -/
theorem Tuple.StandsFor.relax {α β : Type} {r : α → β → Prop} {t : Tuple α} {u : Tuple β}
    (h : t.StandsFor p r u) : t.StandsFor q r u where
  tag := hpq.allows h.tag
  positional := h.positional
  field := h.field
  width hexact := by
    rcases hpq.width with hwidth | hwidth
    · exact h.width (hwidth.symm.trans hexact)
    · cases hwidth.symm.trans hexact

end relax

namespace Ty

variable {p q : TuplePolicy}

/-- Which types an atomic type is below is settled by the atomic ones among them. -/
theorem isSubtype_of_forall_atomic_right {a b : Ty} (ha : a.IsAtomic) (hwf : a.WellFormed)
    (hb : b.WellFormed)
    (hstep : ∀ c : Ty, c.IsAtomic → c.WellFormed → isSubtype p a c = true →
      isSubtype q a c = true)
    (h : isSubtype p a b = true) : isSubtype q a b = true := by
  obtain ⟨y, hy, hay⟩ := (isSubtype_iff_exists_leaf ha hb).mp h
  refine (isSubtype_iff_exists_leaf ha hb).mpr ⟨y, hy, ?_⟩
  rcases cases_of_mem_leaves hb hy with rfl | rfl | hatomic
  · exact isSubtype_unknown_right hwf
  · rw [not_isSubtype_void ha] at hay
    cases hay
  · exact hstep y hatomic (wellFormed_of_mem_leaves hb hy) hay

/-- A relaxed policy keeps all subtypes. -/
theorem isSubtype_of_relaxesTo (hpq : p.RelaxesTo q) {a b : Ty} (ha : a.WellFormed)
    (hb : b.WellFormed) (h : isSubtype p a b = true) : isSubtype q a b = true := by
  induction ha generalizing b with
  | unknown => exact isSubtype_unknown_left b
  | void => exact isSubtype_void_left b
  | scalar s =>
      refine isSubtype_of_forall_atomic_right (isAtomic_scalar s) (.scalar s) hb
        (fun c hc _ hac => ?_) h
      cases c with
      | scalar s' => exact isSubtype_scalar_scalar.mpr (isSubtype_scalar_scalar.mp hac)
      | tuple u =>
          rw [not_isSubtype_scalar_tuple] at hac
          cases hac
      | unknown => cases hc
      | void => cases hc
      | union others => cases hc
  | tuple shape members ih =>
      refine isSubtype_of_forall_atomic_right (isAtomic_tuple _) (.tuple shape members) hb
        (fun c hc hwf hac => ?_) h
      cases c with
      | tuple u =>
          obtain ⟨shape', members'⟩ := wellFormed_tuple_iff.mp hwf
          rw [isSubtype_tuple_tuple shape shape'] at hac ⊢
          exact (hac.imp fun a ha b hb hab => ih a ha (members' b hb) hab).relax hpq
      | scalar s =>
          rw [not_isSubtype_tuple_scalar] at hac
          cases hac
      | unknown => cases hc
      | void => cases hc
      | union others => cases hc
  | union _ ih =>
      rw [isSubtype_union_left] at h ⊢
      exact fun a ha => ih a ha hb (h a ha)

/-- Relaxing a policy never rejects what was accepted. -/
theorem isSubtype_and_isEquivalent_of_relaxesTo (hpq : p.RelaxesTo q) {a b : Ty}
    (ha : a.WellFormed) (hb : b.WellFormed) :
    (isSubtype p a b = true → isSubtype q a b = true) ∧
      (isEquivalent p a b = true → isEquivalent q a b = true) := by
  refine ⟨isSubtype_of_relaxesTo hpq ha hb, fun h => ?_⟩
  rw [isEquivalent_iff ha hb] at h ⊢
  exact ⟨isSubtype_of_relaxesTo hpq ha hb h.1, isSubtype_of_relaxesTo hpq hb ha h.2⟩

/-- A union of a wide record and the empty one is equivalent to the empty record when fields may be
added, and stays so when tags may be dropped as well. -/
theorem isSubtype_and_isEquivalent_of_relaxesTo_of_records :
    let p : TuplePolicy := ⟨.exact, .extensible⟩
    let q : TuplePolicy := ⟨.untaggedAcceptsAny, .extensible⟩
    let wide := tuple ⟨⟨0, 0, .ascendingPair 0⟩, [], [scalar .int, union [scalar .str, void]]⟩
    let empty := tuple ⟨⟨0, 1, .ofPositional 0⟩, [], []⟩
    let a := union [wide, union [empty]]
    (isSubtype ⟨.exact, .exact⟩ a empty = false ∧ isEquivalent p a empty = true) ∧
      isSubtype q a empty = true ∧ isEquivalent q a empty = true := by
  intro p q wide empty a
  have hwf : a.WellFormed ∧ empty.WellFormed := by
    simp [a, wide, empty, Tuple.members, Tuple.wellFormed_iff, Tuple.layout,
      Layout.ascendingPair, Layout.ofPositional]
  have hpq : p.RelaxesTo q := ⟨.inr rfl, .inl rfl⟩
  obtain ⟨hsubtype, hequivalent⟩ := isSubtype_and_isEquivalent_of_relaxesTo hpq hwf.1 hwf.2
  have hheld : isSubtype p a empty = true ∧ isEquivalent p a empty = true := by
    constructor <;> with_unfolding_all rfl
  refine ⟨⟨?_, hheld.2⟩, hsubtype hheld.1, hequivalent hheld.2⟩
  with_unfolding_all rfl

/-! ### Types without unions -/

/-- There is no union at any depth. -/
inductive UnionFree : Ty → Prop
  | unknown : UnionFree .unknown
  | void : UnionFree .void
  | scalar (s : Scalar) : UnionFree (.scalar s)
  | tuple {t : Tuple Ty} (members : ∀ a ∈ t.members, UnionFree a) : UnionFree (.tuple t)

attribute [simp] UnionFree.unknown UnionFree.void UnionFree.scalar

/-- A tuple type is free of unions when its members are. -/
@[simp]
theorem unionFree_tuple_iff {t : Tuple Ty} :
    (tuple t).UnionFree ↔ ∀ a ∈ t.members, a.UnionFree := by
  constructor
  · rintro (_ | _ | _ | members)
    exact members
  · exact .tuple

/-- A type without unions is none. -/
theorem UnionFree.members?_eq_none {a : Ty} (ha : a.UnionFree) : a.members? = none := by
  cases ha <;> rfl

/-! ### Checks that agree on the members -/

section congr

variable {f g : Ty → Ty → TypeCheck}

/-- Checks that agree on the members agree on positional ones. -/
theorem checkPositional_congr {as bs : List Ty} (h : ∀ a ∈ as, ∀ b ∈ bs, f a b = g a b) (i : Nat) :
    checkPositional i (as.map f) bs = checkPositional i (as.map g) bs := by
  induction as generalizing i bs with
  | nil => rfl
  | cons a as ih =>
      cases bs with
      | nil => rfl
      | cons b bs =>
          rw [List.map_cons, List.map_cons, checkPositional, checkPositional,
            h a List.mem_cons_self b List.mem_cons_self, ih]
          intro c hc d hd
          exact h c (List.mem_cons_of_mem a hc) d (List.mem_cons_of_mem b hd)

/-- Checks that agree on the members agree on the fields of both sides. -/
theorem checkPresentFields_congr {t : Tuple Ty} {expected : List (Symbol × Ty)}
    (h : ∀ a ∈ t.values, ∀ x ∈ expected, f a x.2 = g a x.2) :
    checkPresentFields (t.map f) expected = checkPresentFields (t.map g) expected := by
  induction expected with
  | nil => rfl
  | cons x expected ih =>
      obtain ⟨field, b⟩ := x
      rw [checkPresentFields, checkPresentFields, Tuple.field?_map, Tuple.field?_map,
        ih fun a ha x hx => h a ha x (List.mem_cons_of_mem _ hx)]
      cases hfield : t.field? field with
      | none => rfl
      | some a =>
          have hab : f a b = g a b :=
            h a (Tuple.mem_values_of_field? hfield) (field, b) List.mem_cons_self
          simp only [Option.map_some, hab]

/-- The rules for equivalence of tuple types see the checks on the members only. -/
theorem checkSameTuple_congr {t u : Tuple Ty}
    (h : ∀ a ∈ t.members, ∀ b ∈ u.members, f a b = g a b) :
    checkSameTuple (t.map f) u = checkSameTuple (t.map g) u := by
  have hpositional : checkPositional 0 (t.positional.map f) u.positional
      = checkPositional 0 (t.positional.map g) u.positional := by
    apply checkPositional_congr
    intro a ha b hb
    exact h a (Tuple.mem_members_of_positional ha) b (Tuple.mem_members_of_positional hb)
  have hfields : checkPresentFields (t.map f) u.namedAscending
      = checkPresentFields (t.map g) u.namedAscending := by
    apply checkPresentFields_congr
    intro a ha x hx
    have hb : x.2 ∈ u.values := (List.of_mem_zip (u.perm_namedAscending.mem_iff.mp hx)).2
    exact h a (List.mem_append_right _ ha) x.2 (List.mem_append_right _ hb)
  unfold checkSameTuple
  simp only [Tuple.positional_map, hpositional, hfields]
  rfl

end congr

/-! ### Equivalence without unions -/

/-- Without unions, subtyping consults the policy on pairs of tuple types only. -/
theorem checkSubtype_eq_of_not_tuple {a b : Ty} (ha : a.members? = none) (hb : b.members? = none)
    (hnone : a.tuple? = none ∨ b.tuple? = none) : checkSubtype p a b = checkSubtype q a b := by
  cases a with
  | unknown => rfl
  | void => rfl
  | union members => cases ha
  | scalar s =>
      cases b with
      | union members => cases hb
      | unknown => rfl
      | void => rfl
      | scalar s' => rfl
      | tuple u => rfl
  | tuple t =>
      cases b with
      | union members => cases hb
      | unknown => rfl
      | void => rfl
      | scalar s => rfl
      | tuple u => rcases hnone with h | h <;> cases h

/-- Off tuple types no policy is asked when there are no unions. -/
theorem checkEquivalent_eq_of_not_tuple {a b : Ty} (ha : a.UnionFree) (hb : b.UnionFree)
    (hnone : a.tuple? = none ∨ b.tuple? = none) :
    checkEquivalent p a b = checkEquivalent q a b := by
  cases hau : a.isUnknown with
  | true =>
      rw [isUnknown_iff.mp hau]
      rfl
  | false =>
      cases hbu : b.isUnknown with
      | true =>
          rw [isUnknown_iff.mp hbu, checkEquivalent_unknown_right, checkEquivalent_unknown_right]
      | false =>
          have hab : checkSubtype p a b = checkSubtype q a b :=
            checkSubtype_eq_of_not_tuple ha.members?_eq_none hb.members?_eq_none hnone
          have hba : checkSubtype p b a = checkSubtype q b a :=
            checkSubtype_eq_of_not_tuple hb.members?_eq_none ha.members?_eq_none hnone.symm
          rw [checkEquivalent_eq_checkMutualSubtype hau hbu hnone,
            checkEquivalent_eq_checkMutualSubtype hau hbu hnone, checkMutualSubtype,
            checkMutualSubtype, hab, hba]

/-- No policy is asked when there are no unions. -/
theorem checkEquivalent_eq_of_unionFree {a b : Ty} (ha : a.UnionFree) (hb : b.UnionFree) :
    checkEquivalent p a b = checkEquivalent q a b := by
  induction ha generalizing b with
  | unknown => rfl
  | void => exact checkEquivalent_eq_of_not_tuple .void hb (.inl rfl)
  | scalar s => exact checkEquivalent_eq_of_not_tuple (.scalar s) hb (.inl rfl)
  | tuple members ih =>
      cases hb with
      | unknown => rfl
      | void => exact checkEquivalent_eq_of_not_tuple (.tuple members) .void (.inr rfl)
      | scalar s => exact checkEquivalent_eq_of_not_tuple (.tuple members) (.scalar s) (.inr rfl)
      | tuple members' =>
          rw [checkEquivalent_tuple, checkEquivalent_tuple]
          apply checkSameTuple_congr
          intro a ha b hb
          exact ih a ha (members' b hb)

/-- A known type without unions is equivalent to itself only, up to equality of types. -/
theorem beq_of_isEquivalent {a b : Ty} (ha : a.WellFormed) (hb : b.WellFormed)
    (hfa : a.UnionFree) (hfb : b.UnionFree) (hka : a.Known) (hkb : b.Known)
    (h : isEquivalent p a b = true) : (a == b) = true := by
  induction ha generalizing b with
  | unknown => cases hka
  | union _ _ => cases hfa
  | void =>
      obtain ⟨-, hba⟩ := (isEquivalent_iff .void hb).mp h
      cases hkb with
      | void => rfl
      | scalar s => cases (not_isSubtype_void (isAtomic_scalar s)).symm.trans hba
      | tuple _ => cases (not_isSubtype_void (isAtomic_tuple _)).symm.trans hba
      | union _ => cases hfb
  | scalar s =>
      obtain ⟨hab, -⟩ := (isEquivalent_iff (.scalar s) hb).mp h
      cases hkb with
      | void => cases (not_isSubtype_void (isAtomic_scalar s)).symm.trans hab
      | scalar s' => rw [scalar_beq_iff, isSubtype_scalar_scalar.mp hab]
      | tuple _ => cases not_isSubtype_scalar_tuple.symm.trans hab
      | union _ => cases hfb
  | tuple shape members ih =>
      obtain ⟨hab, -⟩ := (isEquivalent_iff (.tuple shape members) hb).mp h
      cases hkb with
      | void => cases (not_isSubtype_void (isAtomic_tuple _)).symm.trans hab
      | scalar s => cases not_isSubtype_tuple_scalar.symm.trans hab
      | union _ => cases hfb
      | tuple known' =>
          obtain ⟨shape', members'⟩ := wellFormed_tuple_iff.mp hb
          rw [isEquivalent_tuple_tuple shape shape'] at h
          refine tuple_beq_iff.mpr ⟨_, rfl, ?_⟩
          rw [Tuple.beq_iff shape shape']
          apply h.imp
          intro a ha b hb hab
          exact ih a ha (members' b hb) (unionFree_tuple_iff.mp hfa a ha)
            (unionFree_tuple_iff.mp hfb b hb) (known_tuple_iff.mp hka a ha) (known' b hb) hab

/-- Equal types are equivalent. -/
theorem isEquivalent_of_beq {a b : Ty} (ha : a.WellFormed) (hb : b.WellFormed)
    (h : (a == b) = true) : isEquivalent p a b = true := by
  rw [isEquivalent_iff ha hb]
  exact ⟨isSubtype_of_beq ha hb h, isSubtype_of_beq hb ha (beq_symm ha hb h)⟩

/-- On types without unions equivalence has the same outcome under all policies, and known ones are
equivalent exactly when they are equal. -/
theorem checkEquivalent_of_unionFree {a b : Ty} (ha : a.WellFormed) (hb : b.WellFormed)
    (hfa : a.UnionFree) (hfb : b.UnionFree) :
    (∀ p q : TuplePolicy, checkEquivalent p a b = checkEquivalent q a b) ∧
      (a.Known → b.Known → ∀ p : TuplePolicy,
        (isEquivalent p a b = true ↔ (a == b) = true)) := by
  refine ⟨fun p q => checkEquivalent_eq_of_unionFree hfa hfb, fun hka hkb p => ?_⟩
  constructor
  · exact beq_of_isEquivalent ha hb hfa hfb hka hkb
  · exact isEquivalent_of_beq ha hb

/-- Records that declare their fields in two orders, and one of them beside a record that has
another type at a field. -/
theorem checkEquivalent_of_unionFree_of_records :
    let strict : TuplePolicy := ⟨.exact, .exact⟩
    let relaxed : TuplePolicy := ⟨.untaggedAcceptsAny, .extensible⟩
    let single (a : Ty) := tuple ⟨⟨0, 2, .ofPositional 1⟩, [a], []⟩
    let a := tuple ⟨⟨0, 0, .ascendingPair 0⟩, [], [scalar .int, single void]⟩
    let b := tuple ⟨⟨0, 1, .descendingPair 0⟩, [], [single void, scalar .int]⟩
    let c := tuple ⟨⟨0, 1, .descendingPair 0⟩, [], [single (scalar .nil), scalar .int]⟩
    ((a == b) = true ∧ isEquivalent relaxed a b = true) ∧
      checkEquivalent relaxed a c = checkEquivalent strict a c ∧
      isEquivalent relaxed a c = false := by
  intro strict relaxed single a b c
  have hwf : a.WellFormed ∧ b.WellFormed ∧ c.WellFormed := by
    simp [a, b, c, single, Tuple.members, Tuple.wellFormed_iff, Tuple.layout,
      Layout.ascendingPair, Layout.descendingPair, Layout.ofPositional]
  have hfree : a.UnionFree ∧ b.UnionFree ∧ c.UnionFree := by
    simp [a, b, c, single, Tuple.members]
  have hknown : a.Known ∧ b.Known ∧ c.Known := by
    simp [a, b, c, single, Tuple.members]
  obtain ⟨ha, hb, hc⟩ := hwf
  obtain ⟨hfa, hfb, hfc⟩ := hfree
  obtain ⟨hka, hkb, hkc⟩ := hknown
  have hab : (a == b) = true := by decide
  have hac : (a == c) = false := by decide
  refine ⟨⟨hab, ?_⟩, ?_, ?_⟩
  · exact ((checkEquivalent_of_unionFree ha hb hfa hfb).2 hka hkb relaxed).mpr hab
  · exact (checkEquivalent_of_unionFree ha hc hfa hfc).1 relaxed strict
  · rw [← Bool.not_eq_true, (checkEquivalent_of_unionFree ha hc hfa hfc).2 hka hkc relaxed, hac]
    exact Bool.false_ne_true

end Ty

end TaggedTuple
