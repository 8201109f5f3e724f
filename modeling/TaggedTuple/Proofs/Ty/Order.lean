import TaggedTuple.Proofs.Ty.Rules

/-!
# Subtyping is a preorder, and equivalence is mutual subtyping

Under every policy, equal types are subtypes of each other and subtyping is transitive where the
type in the middle is known throughout (`isSubtype_preorder`). Equivalence has rules of its own for
tuple types, and yet holds exactly when each type is a subtype of the other
(`isEquivalent_iff_mutual_subtype`): what the policies leave open in one direction they leave open
in one direction only.

`Unknown` has to be kept out of the middle, since it is above and below everything.
-/

namespace TaggedTuple

/-! ### Laws of the rule for tuple types -/

namespace TagPolicy

variable {p : TagPolicy} {a b c : Option Symbol}

/-- What a policy allows in two steps it allows in one. -/
theorem Allows.trans (hab : p.Allows a b) (hbc : p.Allows b c) : p.Allows a c := by
  cases hbc with
  | same => exact hab
  | untagged lenient => exact .untagged lenient

/-- Tags that are allowed for each other are equal, also where an untagged type accepts every
tag. -/
theorem Allows.antisymm (hab : p.Allows a b) (hba : p.Allows b a) : a = b := by
  cases hab with
  | same => rfl
  | untagged lenient => cases hba <;> rfl

end TagPolicy

namespace Tuple

variable {α β γ : Type} {policy : TuplePolicy}

/-- Tuples of types that are related member by member stand for each other. -/
theorem Rel.standsFor {r : α → β → Prop} {t : Tuple α} {u : Tuple β} (h : Rel r t u) :
    t.StandsFor policy r u where
  tag := by
    rw [h.tag_eq]
    exact .same
  positional := h.positional
  field f b hb := by
    have hrel := h.field f
    rw [hb] at hrel
    exact exists_of_rel_some hrel
  width _ f := (eq_none_iff_of_rel (h.field f)).mpr

/-- Members may be related by less. -/
theorem StandsFor.imp {r s : α → β → Prop} {t : Tuple α} {u : Tuple β}
    (h : t.StandsFor policy r u) (hrs : ∀ a ∈ t.members, ∀ b ∈ u.members, r a b → s a b) :
    t.StandsFor policy s u where
  tag := h.tag
  positional := forall₂_imp h.positional fun a ha b hb =>
    hrs a (mem_members_of_positional ha) b (mem_members_of_positional hb)
  field f b hb := by
    obtain ⟨a, ha, hab⟩ := h.field f b hb
    exact ⟨a, ha, hrs a (mem_members_of_field? ha) b (mem_members_of_field? hb) hab⟩
  width := h.width

/-- The relation of the members counts on the members only. -/
theorem standsFor_congr {r s : α → β → Prop} {t : Tuple α} {u : Tuple β}
    (hrs : ∀ a ∈ t.members, ∀ b ∈ u.members, (r a b ↔ s a b)) :
    t.StandsFor policy r u ↔ t.StandsFor policy s u :=
  ⟨fun h => h.imp fun a ha b hb => (hrs a ha b hb).mp,
    fun h => h.imp fun a ha b hb => (hrs a ha b hb).mpr⟩

/-- Standing for a tuple type composes, as far as the relations of members do. -/
theorem StandsFor.trans {r : α → β → Prop} {s : β → γ → Prop} {q : α → γ → Prop} {t : Tuple α}
    {u : Tuple β} {v : Tuple γ} (h : t.StandsFor policy r u) (h' : u.StandsFor policy s v)
    (hq : ∀ a ∈ t.members, ∀ b ∈ u.members, ∀ c ∈ v.members, r a b → s b c → q a c) :
    t.StandsFor policy q v where
  tag := h.tag.trans h'.tag
  positional := forall₂_trans h.positional h'.positional fun a ha b hb c hc =>
    hq a (mem_members_of_positional ha) b (mem_members_of_positional hb) c
      (mem_members_of_positional hc)
  field f c hc := by
    obtain ⟨b, hb, hbc⟩ := h'.field f c hc
    obtain ⟨a, ha, hab⟩ := h.field f b hb
    exact ⟨a, ha, hq a (mem_members_of_field? ha) b (mem_members_of_field? hb) c
      (mem_members_of_field? hc) hab hbc⟩
  width hexact f hf := h.width hexact f (h'.width hexact f hf)

/-- Tuples of types stand for each other exactly when they are related member by member, both
ways. -/
theorem standsFor_and_standsFor_iff {r : α → β → Prop} {s : β → α → Prop} {t : Tuple α}
    {u : Tuple β} :
    t.StandsFor policy r u ∧ u.StandsFor policy s t ↔ Rel (fun a b => r a b ∧ s b a) t u := by
  constructor
  · rintro ⟨h, h'⟩
    refine ⟨h.tag.antisymm h'.tag, ?_, fun f => ?_⟩
    · exact forall₂_and h.positional h'.positional.flip
    · -- a field of either tuple is expected in the other one, whatever the width policy allows
      cases hu : u.field? f with
      | some b =>
          obtain ⟨a, ha, hab⟩ := h.field f b hu
          obtain ⟨b', hb', hba⟩ := h'.field f a ha
          obtain rfl : b' = b := Option.some.inj (hb'.symm.trans hu)
          rw [ha]
          exact .some ⟨hab, hba⟩
      | none =>
          cases ht : t.field? f with
          | none => exact .none
          | some a =>
              obtain ⟨b, hb, -⟩ := h'.field f a ht
              rw [hu] at hb
              cases hb
  · intro h
    exact ⟨(h.imp fun a _ b _ hab => hab.1).standsFor,
      (h.flip.imp fun b _ a _ hab => hab.2).standsFor⟩

end Tuple

namespace Ty

variable {policy : TuplePolicy}

/-! ### Equality of types -/

/-- Only `Unknown` is unknown. -/
theorem isUnknown_iff {a : Ty} : a.isUnknown = true ↔ a = unknown := by
  cases a <;> simp [isUnknown]

/-- A scalar equals only itself. -/
theorem scalar_beq_iff {s : Scalar} {b : Ty} : (scalar s == b) = true ↔ b = scalar s := by
  show (b.scalar? == some s) = true ↔ _
  cases b <;> simp [scalar?]

/-- A tuple type equals only equal tuple types. -/
theorem tuple_beq_iff {t : Tuple Ty} {b : Ty} :
    (tuple t == b) = true ↔ ∃ u, b = tuple u ∧ (t == u) = true := by
  cases b with
  | tuple u =>
      show equal (.tuple t) (.tuple u) = true ↔ _
      rw [equal_tuple]
      simp
  | unknown => exact ⟨nofun, nofun⟩
  | void => exact ⟨nofun, nofun⟩
  | scalar s => exact ⟨nofun, nofun⟩
  | union members => exact ⟨nofun, nofun⟩

/-- Unions are compared member by member, in order. -/
theorem union_beq_iff {members : List Ty} {b : Ty} :
    (union members == b) = true ↔
      ∃ others, b = union others ∧ List.Forall₂ (fun a b => (a == b) = true) members others := by
  cases b with
  | union others =>
      show Tuple.agreeAll (equalEach members) others = true ↔ _
      rw [equalEach_eq_map, Tuple.agreeAll_iff, List.forall₂_map_left_iff]
      constructor
      · exact fun h => ⟨others, rfl, h⟩
      · rintro ⟨_, heq, h⟩
        cases heq
        exact h
  | unknown => exact ⟨nofun, nofun⟩
  | void => exact ⟨nofun, nofun⟩
  | scalar s => exact ⟨nofun, nofun⟩
  | tuple t => exact ⟨nofun, nofun⟩

/-! ### Reflexivity -/

/-- What is below a member is below the union. A union on the left is taken apart before the one on
the right, hence the induction. -/
theorem isSubtype_union_of_mem {a b : Ty} {members : List Ty} (ha : a.WellFormed)
    (hb : b ∈ members) (hab : isSubtype policy a b = true) :
    isSubtype policy a (.union members) = true := by
  induction ha with
  | unknown => exact isSubtype_unknown_left _
  | void => exact isSubtype_void_left _
  | scalar s => exact (isSubtype_union_right (isAtomic_scalar s)).mpr ⟨b, hb, hab⟩
  | tuple _ _ _ => exact (isSubtype_union_right (isAtomic_tuple _)).mpr ⟨b, hb, hab⟩
  | union _ ih =>
      rw [isSubtype_union_left] at hab ⊢
      exact fun a ha => ih a ha (hab a ha)

/-- Equal types are subtypes of each other. -/
theorem isSubtype_of_beq {a b : Ty} (ha : a.WellFormed) (hb : b.WellFormed)
    (h : (a == b) = true) : isSubtype policy a b = true := by
  induction ha generalizing b with
  | unknown => exact isSubtype_unknown_left _
  | void => exact isSubtype_void_left _
  | scalar s =>
      rw [scalar_beq_iff.mp h]
      exact isSubtype_scalar_scalar.mpr rfl
  | tuple shape members ih =>
      obtain ⟨u, rfl, htu⟩ := tuple_beq_iff.mp h
      obtain ⟨shape', members'⟩ := wellFormed_tuple_iff.mp hb
      rw [Tuple.beq_iff shape shape'] at htu
      rw [isSubtype_tuple_tuple shape shape']
      exact (htu.imp fun a ha b hb hab => ih a ha (members' b hb) hab).standsFor
  | union each ih =>
      obtain ⟨others, rfl, hforall⟩ := union_beq_iff.mp h
      have hothers := wellFormed_union_iff.mp hb
      rw [isSubtype_union_left]
      intro a ha
      obtain ⟨b, hb, hab⟩ := forall₂_exists_right hforall a ha
      exact isSubtype_union_of_mem (each a ha) hb (ih a ha (hothers b hb) hab)

/-! ### Transitivity -/

/-- There is no `Unknown` at any depth. -/
inductive Known : Ty → Prop
  | void : Known .void
  | scalar (s : Scalar) : Known (.scalar s)
  | tuple {t : Tuple Ty} (members : ∀ a ∈ t.members, Known a) : Known (.tuple t)
  | union {members : List Ty} (each : ∀ a ∈ members, Known a) : Known (.union members)

attribute [simp] Known.void Known.scalar

/-- A tuple type is known when its members are. -/
@[simp]
theorem known_tuple_iff {t : Tuple Ty} : (tuple t).Known ↔ ∀ a ∈ t.members, a.Known := by
  constructor
  · rintro (_ | _ | members)
    exact members
  · exact .tuple

/-- A union is known when its members are. -/
@[simp]
theorem known_union_iff {members : List Ty} :
    (union members).Known ↔ ∀ a ∈ members, a.Known := by
  constructor
  · rintro (_ | _ | _ | each)
    exact each
  · exact .union

/-- Between atomic types on the left, a union on the right makes no difference. -/
theorem isSubtype_of_forall_atomic {a b c : Ty} (ha : a.IsAtomic) (hb : b.IsAtomic)
    (hstep : ∀ c : Ty, c.IsAtomic → c.WellFormed → isSubtype policy b c = true →
      isSubtype policy a c = true)
    (hwf : a.WellFormed) (hc : c.WellFormed) (hbc : isSubtype policy b c = true) :
    isSubtype policy a c = true := by
  induction hc with
  | unknown => exact isSubtype_unknown_right hwf
  | void =>
      rw [not_isSubtype_void hb] at hbc
      cases hbc
  | scalar s => exact hstep _ (isAtomic_scalar s) (.scalar s) hbc
  | tuple shape members _ => exact hstep _ (isAtomic_tuple _) (.tuple shape members) hbc
  | union _ ih =>
      obtain ⟨m, hm, hbm⟩ := (isSubtype_union_right hb).mp hbc
      exact (isSubtype_union_right ha).mpr ⟨m, hm, ih m hm hbm⟩

/-- For an atomic type on the left it is enough to be transitive along atomic types. -/
theorem isSubtype_trans_of_atomic {a b c : Ty} (ha : a.IsAtomic)
    (hstep : ∀ b c : Ty, b.IsAtomic → c.IsAtomic → b.WellFormed → c.WellFormed → b.Known →
      isSubtype policy a b = true → isSubtype policy b c = true → isSubtype policy a c = true)
    (hwf : a.WellFormed) (hb : b.WellFormed) (hc : c.WellFormed) (hknown : b.Known)
    (hab : isSubtype policy a b = true) (hbc : isSubtype policy b c = true) :
    isSubtype policy a c = true := by
  induction hknown with
  | void =>
      rw [not_isSubtype_void ha] at hab
      cases hab
  | scalar s =>
      refine isSubtype_of_forall_atomic ha (isAtomic_scalar s) (fun c hatomic hc hbc => ?_) hwf
        hc hbc
      exact hstep _ c (isAtomic_scalar s) hatomic hb hc (.scalar s) hab hbc
  | tuple members =>
      refine isSubtype_of_forall_atomic ha (isAtomic_tuple _) (fun c hatomic hc hbc => ?_) hwf
        hc hbc
      exact hstep _ c (isAtomic_tuple _) hatomic hb hc (.tuple members) hab hbc
  | union each ih =>
      obtain ⟨m, hm, ham⟩ := (isSubtype_union_right ha).mp hab
      exact ih m hm (wellFormed_union_iff.mp hb m hm) ham (isSubtype_union_left.mp hbc m hm)

/-- Subtyping is transitive through a known type. -/
theorem isSubtype_trans {a b c : Ty} (ha : a.WellFormed) (hb : b.WellFormed) (hc : c.WellFormed)
    (hknown : b.Known) (hab : isSubtype policy a b = true) (hbc : isSubtype policy b c = true) :
    isSubtype policy a c = true := by
  induction ha generalizing b c with
  | unknown => exact isSubtype_unknown_left _
  | void => exact isSubtype_void_left _
  | scalar s =>
      refine isSubtype_trans_of_atomic (isAtomic_scalar s) ?_ (.scalar s) hb hc hknown hab hbc
      intro b c hb' _ _ _ _ hab hbc
      cases b with
      | scalar s' =>
          obtain rfl := isSubtype_scalar_scalar.mp hab
          exact hbc
      | tuple u =>
          rw [not_isSubtype_scalar_tuple] at hab
          cases hab
      | unknown => cases hb'
      | void => cases hb'
      | union members => cases hb'
  | tuple shape members ih =>
      refine isSubtype_trans_of_atomic (isAtomic_tuple _) ?_ (.tuple shape members) hb hc hknown
        hab hbc
      intro b c hb' hc' hb hc hknown hab hbc
      cases b with
      | scalar s' =>
          rw [not_isSubtype_tuple_scalar] at hab
          cases hab
      | unknown => cases hb'
      | void => cases hb'
      | union members => cases hb'
      | tuple u =>
          cases c with
          | scalar s' =>
              rw [not_isSubtype_tuple_scalar] at hbc
              cases hbc
          | unknown => cases hc'
          | void => cases hc'
          | union members => cases hc'
          | tuple v =>
              obtain ⟨shape', members'⟩ := wellFormed_tuple_iff.mp hb
              obtain ⟨shape'', members''⟩ := wellFormed_tuple_iff.mp hc
              rw [isSubtype_tuple_tuple shape shape'] at hab
              rw [isSubtype_tuple_tuple shape' shape''] at hbc
              rw [isSubtype_tuple_tuple shape shape'']
              exact hab.trans hbc fun a ha b hb c hc hab hbc =>
                ih a ha (members' b hb) (members'' c hc) (known_tuple_iff.mp hknown b hb) hab hbc
  | union _ ih =>
      rw [isSubtype_union_left] at hab ⊢
      exact fun a ha => ih a ha hb hc hknown (hab a ha) hbc

/-- Subtyping is a preorder up to equality of types. Only the type in the middle has to be known. -/
theorem isSubtype_preorder (policy : TuplePolicy) :
    (∀ a b : Ty, a.WellFormed → b.WellFormed → (a == b) = true → isSubtype policy a b = true) ∧
      ∀ a b c : Ty, a.WellFormed → b.WellFormed → c.WellFormed → b.Known →
        isSubtype policy a b = true → isSubtype policy b c = true → isSubtype policy a c = true :=
  ⟨fun _ _ ha hb h => isSubtype_of_beq ha hb h,
    fun _ _ _ ha hb hc hknown hab hbc => isSubtype_trans ha hb hc hknown hab hbc⟩

/-- Equal records whose layouts declare the fields in two orders, and a chain of tuple types that
leads into a nested union. -/
theorem isSubtype_preorder_of_records :
    let policy : TuplePolicy := ⟨.untaggedAcceptsAny, .extensible⟩
    let a := tuple ⟨⟨0, 0, .ascendingPair 0⟩, [], [scalar .int, union [unknown, void]]⟩
    let b := tuple ⟨⟨0, 1, .descendingPair 0⟩, [], [union [unknown, void], scalar .int]⟩
    let single : Ty → Ty := fun a => tuple ⟨⟨0, 2, .ofPositional 1⟩, [a], []⟩
    let middle := union [scalar .str, single (scalar .int)]
    let wide := union [scalar .str, union [single (union [scalar .int, unknown])]]
    ((a == b) = true ∧ isSubtype policy a b = true) ∧
      middle.Known ∧ isSubtype policy (single (scalar .int)) wide = true := by
  intro policy a b single middle wide
  have hwf : a.WellFormed ∧ b.WellFormed ∧ (single (scalar .int)).WellFormed ∧
      middle.WellFormed ∧ wide.WellFormed := by
    simp [a, b, single, middle, wide, Tuple.members, Tuple.wellFormed_iff, Tuple.layout,
      Layout.ascendingPair, Layout.descendingPair, Layout.ofPositional]
  obtain ⟨ha, hb, hsingle, hmiddle, hwide⟩ := hwf
  have hknown : middle.Known := by simp [middle, single, Tuple.members]
  have hab : (a == b) = true := by decide
  refine ⟨⟨hab, (isSubtype_preorder policy).1 a b ha hb hab⟩, hknown, ?_⟩
  exact (isSubtype_preorder policy).2 _ middle wide hsingle hmiddle hwide hknown
    (by decide) (by decide)

/-! ### Equivalence -/

/-- Off the rule for tuple types, equivalence is mutual subtyping. -/
theorem isEquivalent_iff_of_not_tuple {a b : Ty} (ha : a.WellFormed) (hb : b.WellFormed)
    (hnone : a.tuple? = none ∨ b.tuple? = none) :
    isEquivalent policy a b = true ↔
      isSubtype policy a b = true ∧ isSubtype policy b a = true := by
  cases hau : a.isUnknown with
  | true =>
      obtain rfl := isUnknown_iff.mp hau
      simp [isEquivalent_unknown_left, isSubtype_unknown_left, isSubtype_unknown_right hb]
  | false =>
      cases hbu : b.isUnknown with
      | true =>
          obtain rfl := isUnknown_iff.mp hbu
          simp [isEquivalent_unknown_right, isSubtype_unknown_left, isSubtype_unknown_right ha]
      | false => exact isEquivalent_iff_of_tuple?_eq_none hau hbu hnone

/-- Equivalence is mutual subtyping. -/
theorem isEquivalent_iff {a b : Ty} (ha : a.WellFormed) (hb : b.WellFormed) :
    isEquivalent policy a b = true ↔
      isSubtype policy a b = true ∧ isSubtype policy b a = true := by
  induction ha generalizing b with
  | unknown => exact isEquivalent_iff_of_not_tuple .unknown hb (.inl rfl)
  | void => exact isEquivalent_iff_of_not_tuple .void hb (.inl rfl)
  | scalar s => exact isEquivalent_iff_of_not_tuple (.scalar s) hb (.inl rfl)
  | union each _ => exact isEquivalent_iff_of_not_tuple (.union each) hb (.inl rfl)
  | tuple shape members ih =>
      cases hb with
      | unknown => exact isEquivalent_iff_of_not_tuple (.tuple shape members) .unknown (.inr rfl)
      | void => exact isEquivalent_iff_of_not_tuple (.tuple shape members) .void (.inr rfl)
      | scalar s =>
          exact isEquivalent_iff_of_not_tuple (.tuple shape members) (.scalar s) (.inr rfl)
      | union each =>
          exact isEquivalent_iff_of_not_tuple (.tuple shape members) (.union each) (.inr rfl)
      | tuple shape' members' =>
          rw [isEquivalent_tuple_tuple shape shape', isSubtype_tuple_tuple shape shape',
            isSubtype_tuple_tuple shape' shape, Tuple.standsFor_and_standsFor_iff]
          constructor
          · intro h
            exact h.imp fun a ha b hb hab => (ih a ha (members' b hb)).mp hab
          · intro h
            exact h.imp fun a ha b hb hab => (ih a ha (members' b hb)).mpr hab

/-- Equivalence is exactly mutual subtyping, and so does not depend on the order of the two
types. -/
theorem isEquivalent_iff_mutual_subtype (policy : TuplePolicy) {a b : Ty} (ha : a.WellFormed)
    (hb : b.WellFormed) :
    (isEquivalent policy a b = true ↔
        isSubtype policy a b = true ∧ isSubtype policy b a = true) ∧
      isEquivalent policy a b = isEquivalent policy b a := by
  refine ⟨isEquivalent_iff ha hb, ?_⟩
  rw [Bool.eq_iff_iff, isEquivalent_iff ha hb, isEquivalent_iff hb ha]
  exact and_comm

/-- Records that agree in one direction only, next to `Unknown`. -/
theorem isEquivalent_iff_mutual_subtype_of_records :
    let policy : TuplePolicy := ⟨.untaggedAcceptsAny, .extensible⟩
    let a := tuple ⟨⟨0, 0, .ascendingPair 0⟩, [], [scalar .int, union [unknown, scalar .str]]⟩
    let b := tuple ⟨⟨0, 1, .descendingPair 0⟩, [], [scalar .nil, union [scalar .int, void]]⟩
    (isEquivalent policy a b = true ↔
        isSubtype policy a b = true ∧ isSubtype policy b a = true) ∧
      isEquivalent policy a b = isEquivalent policy b a := by
  intro policy a b
  have hwf : a.WellFormed ∧ b.WellFormed := by
    simp [a, b, Tuple.members, Tuple.wellFormed_iff, Tuple.layout, Layout.ascendingPair,
      Layout.descendingPair]
  exact isEquivalent_iff_mutual_subtype policy hwf.1 hwf.2

end Ty

end TaggedTuple
