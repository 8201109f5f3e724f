import TaggedTuple.Proofs.EqualityLaws
import TaggedTuple.Proofs.Renaming.Tuple

/-!
# Renaming the symbols of a type

Equality, subtyping and equivalence of types do not depend on the numbers of the symbols in them,
under any policy (`Ty.beq_rename`, `Ty.isSubtype_rename`, `Ty.isEquivalent_rename`). Which mismatch
is reported does: the checks go through fields in ascending order. So the verdicts are compared by
the rules, which say what makes a check pass, not by the checks themselves.
-/

namespace TaggedTuple

variable (r : Symbol ↪ Symbol)

/-! ### The rule for tuple types -/

/-- A policy allows renamed tags exactly where it allows the tags. -/
theorem TagPolicy.allows_map_iff {p : TagPolicy} {sub sup : Option Symbol} :
    p.Allows (sub.map r) (sup.map r) ↔ p.Allows sub sup := by
  constructor
  · intro h
    generalize hsup : sup.map r = tag at h
    cases h with
    | same =>
        obtain rfl : sup = sub := Option.map_injective r.injective hsup
        exact .same
    | untagged lenient =>
        obtain rfl := Option.map_eq_none_iff.mp hsup
        exact .untagged lenient
  · rintro (_ | lenient)
    · exact .same
    · exact .untagged lenient

/-- Renamed tuples stand for each other exactly when the tuples do. -/
theorem Tuple.standsFor_rename_iff {α β γ δ : Type} {policy : TuplePolicy} {s : β → δ → Prop}
    {g : α → β} {g' : γ → δ} {t : Tuple α} {u : Tuple γ} :
    (t.rename r g).StandsFor policy s (u.rename r g') ↔
      t.StandsFor policy (fun a b => s (g a) (g' b)) u := by
  constructor
  · rintro ⟨htag, hpositional, hfield, hwidth⟩
    refine ⟨?_, ?_, fun f b hb => ?_, fun hexact f hf => ?_⟩
    · rwa [tag_rename, tag_rename, TagPolicy.allows_map_iff] at htag
    · simpa [List.forall₂_map_left_iff, List.forall₂_map_right_iff] using hpositional
    · simpa [field?_rename] using hfield (r f) (g' b) (by simp [field?_rename, hb])
    · simpa [field?_rename] using hwidth hexact (r f) (by simp [field?_rename, hf])
  · rintro ⟨htag, hpositional, hfield, hwidth⟩
    refine ⟨?_, ?_, fun f b hb => ?_, fun hexact f hf => ?_⟩
    · rwa [tag_rename, tag_rename, TagPolicy.allows_map_iff]
    · simpa [List.forall₂_map_left_iff, List.forall₂_map_right_iff] using hpositional
    · by_cases hrange : f ∈ Set.range r
      · obtain ⟨f, rfl⟩ := hrange
        rw [field?_rename, Option.map_eq_some_iff] at hb
        obtain ⟨b, hb, rfl⟩ := hb
        obtain ⟨a, ha, hab⟩ := hfield f b hb
        exact ⟨g a, by simp [field?_rename, ha], hab⟩
      · simp [field?_rename_of_notMem_range r g' u hrange] at hb
    · by_cases hrange : f ∈ Set.range r
      · obtain ⟨f, rfl⟩ := hrange
        rw [field?_rename, Option.map_eq_none_iff] at hf ⊢
        exact hwidth hexact f hf
      · exact field?_rename_of_notMem_range r g t hrange

namespace Ty

/-! ### Renamed types -/

mutual

/-- The type with all symbols renamed, at every depth. -/
def rename (r : Symbol ↪ Symbol) : Ty → Ty
  | .unknown => .unknown
  | .void => .void
  | .scalar s => .scalar s
  | .tuple t => .tuple (renameMembers r t)
  | .union members => .union (renameEach r members)

/-- The tuple with all symbols renamed, those of its members included. -/
def renameMembers (r : Symbol ↪ Symbol) : Tuple Ty → Tuple Ty
  | ⟨shared, positional, values⟩ =>
    ⟨shared.rename r, renameEach r positional, renameEach r values⟩

/-- The types of a list with all symbols renamed. -/
def renameEach (r : Symbol ↪ Symbol) : List Ty → List Ty
  | [] => []
  | a :: as => a.rename r :: renameEach r as

end

/-- Renaming a list of types, as a map. -/
theorem renameEach_eq_map (as : List Ty) : renameEach r as = as.map (rename r) := by
  induction as with
  | nil => rfl
  | cons a as ih => rw [renameEach, ih, List.map_cons]

/-- `Unknown` has nothing to rename. -/
@[simp]
theorem rename_unknown : rename r .unknown = .unknown := by rw [rename]

/-- `Void` has nothing to rename. -/
@[simp]
theorem rename_void : rename r .void = .void := by rw [rename]

/-- A scalar has nothing to rename. -/
@[simp]
theorem rename_scalar (s : Scalar) : rename r (.scalar s) = .scalar s := by rw [rename]

/-- A tuple type is renamed member by member. -/
@[simp]
theorem rename_tuple (t : Tuple Ty) : rename r (.tuple t) = .tuple (t.rename r (rename r)) := by
  obtain ⟨shared, positional, values⟩ := t
  rw [rename, renameMembers, renameEach_eq_map, renameEach_eq_map]
  rfl

/-- A union is renamed member by member. -/
@[simp]
theorem rename_union (members : List Ty) :
    rename r (.union members) = .union (members.map (rename r)) := by
  rw [rename, renameEach_eq_map]

variable {r}

/-- A renamed type is well-formed. -/
theorem WellFormed.rename {a : Ty} (h : a.WellFormed) : (a.rename r).WellFormed := by
  induction h with
  | unknown => simp
  | void => simp
  | scalar s => simp
  | tuple shape _ ih =>
      simp only [rename_tuple, wellFormed_tuple_iff, Tuple.members_rename, List.forall_mem_map]
      exact ⟨shape.rename r _, ih⟩
  | union _ ih =>
      simp only [rename_union, wellFormed_union_iff, List.forall_mem_map]
      exact ih

/-- Renamed types are equal exactly when the types are. -/
theorem beq_rename {a b : Ty} (ha : a.WellFormed) (hb : b.WellFormed) :
    (a.rename r == b.rename r) = (a == b) := by
  induction ha generalizing b with
  | unknown =>
      rw [Bool.eq_iff_iff, rename_unknown, unknown_beq_iff, unknown_beq_iff]
      cases b <;> simp
  | void =>
      rw [Bool.eq_iff_iff, rename_void, void_beq_iff, void_beq_iff]
      cases b <;> simp
  | scalar s =>
      rw [Bool.eq_iff_iff, rename_scalar, scalar_beq_iff, scalar_beq_iff]
      cases b <;> simp
  | @tuple t shape _ ih =>
      rw [Bool.eq_iff_iff, rename_tuple, tuple_beq_iff, tuple_beq_iff]
      cases hb with
      | unknown => simp
      | void => simp
      | scalar s => simp
      | union _ => simp
      | @tuple u shape' members' =>
          have hbeq : (t.rename r (rename r) == u.rename r (rename r)) = (t == u) := by
            apply Tuple.beq_rename r _ shape shape'
            intro a ha b hb
            exact ih a ha (members' b hb)
          simp [hbeq]
  | @union members _ ih =>
      rw [Bool.eq_iff_iff, rename_union, union_beq_iff, union_beq_iff]
      cases hb with
      | unknown => simp
      | void => simp
      | scalar s => simp
      | tuple _ _ => simp
      | @union others each' =>
          have hforall :
              List.Forall₂ (fun a b => (a.rename r == b.rename r) = true) members others ↔
                List.Forall₂ (fun a b => (a == b) = true) members others := by
            apply forall₂_congr_of_mem
            intro a ha b hb
            rw [ih a ha (each' b hb)]
          simpa using hforall

/-! ### Subtyping -/

variable {policy : TuplePolicy}

/-- A renamed atomic type is atomic. -/
theorem IsAtomic.rename {a : Ty} (h : a.IsAtomic) : (a.rename r).IsAtomic := by
  cases a with
  | scalar s =>
      rw [rename_scalar]
      exact h
  | tuple t =>
      rw [rename_tuple]
      exact isAtomic_tuple _
  | unknown => cases h
  | void => cases h
  | union members => cases h

/-- For an atomic type on the left it is enough to compare it with atomic types. -/
theorem isSubtype_rename_of_atomic {a b : Ty} (ha : a.IsAtomic) (hwf : a.WellFormed)
    (hb : b.WellFormed)
    (hatomic : ∀ b : Ty, b.IsAtomic → b.WellFormed →
      isSubtype policy (a.rename r) (b.rename r) = isSubtype policy a b) :
    isSubtype policy (a.rename r) (b.rename r) = isSubtype policy a b := by
  induction hb with
  | unknown => rw [rename_unknown, isSubtype_unknown_right hwf, isSubtype_unknown_right hwf.rename]
  | void => rw [rename_void, not_isSubtype_void ha, not_isSubtype_void ha.rename]
  | scalar s => exact hatomic _ (isAtomic_scalar s) (.scalar s)
  | tuple shape members _ => exact hatomic _ (isAtomic_tuple _) (.tuple shape members)
  | union _ ih =>
      rw [Bool.eq_iff_iff, rename_union, isSubtype_union_right ha.rename, isSubtype_union_right ha]
      simp only [List.mem_map, exists_exists_and_eq_and]
      apply exists_congr
      intro b
      apply and_congr_right
      intro hb
      rw [ih b hb]

/-- A type may stand for another one exactly when the renamed types do. -/
theorem isSubtype_rename {a b : Ty} (ha : a.WellFormed) (hb : b.WellFormed) :
    isSubtype policy (a.rename r) (b.rename r) = isSubtype policy a b := by
  -- the left type is taken apart first; `isSubtype_rename_of_atomic` takes care of the right one
  induction ha generalizing b with
  | unknown => rw [rename_unknown, isSubtype_unknown_left, isSubtype_unknown_left]
  | void => rw [rename_void, isSubtype_void_left, isSubtype_void_left]
  | scalar s =>
      apply isSubtype_rename_of_atomic (isAtomic_scalar s) (.scalar s) hb
      intro b hatomic hb
      cases b with
      | scalar s' => simp
      | tuple u => simp [not_isSubtype_scalar_tuple]
      | unknown => cases hatomic
      | void => cases hatomic
      | union members => cases hatomic
  | tuple shape members ih =>
      apply isSubtype_rename_of_atomic (isAtomic_tuple _) (.tuple shape members) hb
      intro b hatomic hb
      cases b with
      | scalar s' => simp [not_isSubtype_tuple_scalar]
      | unknown => cases hatomic
      | void => cases hatomic
      | union members => cases hatomic
      | tuple u =>
          obtain ⟨shape', members'⟩ := wellFormed_tuple_iff.mp hb
          rw [Bool.eq_iff_iff, rename_tuple, rename_tuple,
            isSubtype_tuple_tuple (shape.rename r _) (shape'.rename r _),
            isSubtype_tuple_tuple shape shape', Tuple.standsFor_rename_iff]
          apply Tuple.standsFor_congr
          intro a ha b hb
          rw [ih a ha (members' b hb)]
  | union _ ih =>
      rw [Bool.eq_iff_iff, rename_union, isSubtype_union_left, isSubtype_union_left,
        List.forall_mem_map]
      apply forall₂_congr
      intro a ha
      rw [ih a ha hb]

/-- Types are equivalent exactly when the renamed types are. -/
theorem isEquivalent_rename {a b : Ty} (ha : a.WellFormed) (hb : b.WellFormed) :
    isEquivalent policy (a.rename r) (b.rename r) = isEquivalent policy a b := by
  rw [Bool.eq_iff_iff, isEquivalent_iff ha.rename hb.rename, isEquivalent_iff ha hb,
    isSubtype_rename ha hb, isSubtype_rename hb ha]

end Ty

end TaggedTuple
