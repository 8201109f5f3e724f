import TaggedTuple.Ty.Relation
import TaggedTuple.Proofs.Tuple.Equality

/-!
# Subtyping and equivalence as rules

The checks of `TaggedTuple.Ty.Relation` report the first mismatch. The rules here say when there is
none. A union on the left is below a type when all its members are (`isSubtype_union_left`); on the
right of an atomic type, a scalar or a tuple, some member has to accept it
(`isSubtype_union_right`). A tuple type stands for another one when the policy allows its tag
(`TagPolicy.Allows`) and `Tuple.StandsFor` holds of their members (`isSubtype_tuple_tuple`), and two
tuple types are equivalent when they agree on tag and fields and their members are equivalent
(`isEquivalent_tuple_tuple`).
-/

namespace TaggedTuple

namespace Ty

/-- Every tuple type inside the type is well-formed. -/
inductive WellFormed : Ty → Prop
  | unknown : WellFormed .unknown
  | void : WellFormed .void
  | scalar (s : Scalar) : WellFormed (.scalar s)
  | tuple {t : Tuple Ty} (shape : t.WellFormed) (members : ∀ a ∈ t.members, WellFormed a) :
    WellFormed (.tuple t)
  | union {members : List Ty} (each : ∀ a ∈ members, WellFormed a) : WellFormed (.union members)

attribute [simp] WellFormed.unknown WellFormed.void WellFormed.scalar

/-- A tuple type is well-formed when its tuple and all its members are. -/
@[simp]
theorem wellFormed_tuple_iff {t : Tuple Ty} :
    (tuple t).WellFormed ↔ t.WellFormed ∧ ∀ a ∈ t.members, a.WellFormed := by
  constructor
  · rintro (_ | _ | _ | ⟨shape, members⟩)
    exact ⟨shape, members⟩
  · rintro ⟨shape, members⟩
    exact .tuple shape members

/-- A union is well-formed when all its members are. -/
@[simp]
theorem wellFormed_union_iff {members : List Ty} :
    (union members).WellFormed ↔ ∀ a ∈ members, a.WellFormed := by
  constructor
  · rintro (_ | _ | _ | _ | each)
    exact each
  · exact .union

/-- A scalar or a tuple type. -/
def IsAtomic : Ty → Prop
  | .scalar _ => True
  | .tuple _ => True
  | _ => False

/-- A scalar is atomic. -/
theorem isAtomic_scalar (s : Scalar) : (scalar s).IsAtomic := trivial

/-- A tuple type is atomic. -/
theorem isAtomic_tuple (t : Tuple Ty) : (tuple t).IsAtomic := trivial

end Ty

/-! ### Tags -/

namespace TagPolicy

/-- A policy lets a tuple type tagged `sub` stand for one tagged `sup`. -/
inductive Allows (p : TagPolicy) (sub : Option Symbol) : Option Symbol → Prop
  /-- Every policy allows the same tag, and no tag where none is expected. -/
  | same : p.Allows sub sub
  /-- The lenient policy also allows any tag where none is expected. -/
  | untagged (lenient : p = .untaggedAcceptsAny) : p.Allows sub none

variable {p : TagPolicy} {sub sup : Option Symbol}

/-- The check of the tags passes exactly where the policy allows them. -/
theorem accepts_iff_allows : p.accepts sub sup = true ↔ p.Allows sub sup := by
  constructor
  · intro h
    cases p with
    | exact =>
        obtain rfl : sub = sup := by simpa [accepts] using h
        exact .same
    | untaggedAcceptsAny =>
        simp only [accepts, Bool.or_eq_true, Option.isNone_iff_eq_none, beq_iff_eq] at h
        rcases h with rfl | rfl
        · exact .untagged rfl
        · exact .same
  · rintro (_ | rfl)
    · cases p <;> simp [accepts]
    · rfl

end TagPolicy

/-! ### Tuple types -/

section tuple

variable {α β γ : Type}

/-- Whether a tuple of types may stand for another one, a relation of the members given: the tag is
acceptable, positional members and expected fields are related, and the policy allows the fields
that are not expected. -/
structure Tuple.StandsFor (policy : TuplePolicy) (r : α → β → Prop) (t : Tuple α) (u : Tuple β) :
    Prop where
  tag : policy.tags.Allows t.tag u.tag
  positional : List.Forall₂ r t.positional u.positional
  field : ∀ f b, u.field? f = some b → ∃ a, t.field? f = some a ∧ r a b
  width : policy.width = .exact → ∀ f, u.field? f = none → t.field? f = none

/-- A map of the left members can be moved into their relation. -/
theorem Tuple.standsFor_map_left {policy : TuplePolicy} {r : β → γ → Prop} {g : α → β}
    {t : Tuple α} {u : Tuple γ} :
    (t.map g).StandsFor policy r u ↔ t.StandsFor policy (fun a => r (g a)) u := by
  have hfield : ∀ f b, (∃ a, (t.map g).field? f = some a ∧ r a b) ↔
      ∃ a, t.field? f = some a ∧ r (g a) b := by
    intro f b
    simp only [field?_map, Option.map_eq_some_iff]
    constructor
    · rintro ⟨-, ⟨a, ha, rfl⟩, hr⟩
      exact ⟨a, ha, hr⟩
    · rintro ⟨a, ha, hr⟩
      exact ⟨g a, ⟨a, ha, rfl⟩, hr⟩
  constructor
  · rintro ⟨htag, hpositional, hfields, hwidth⟩
    refine ⟨htag, List.forall₂_map_left_iff.mp hpositional,
      fun f b hb => (hfield f b).mp (hfields f b hb), fun h f hf => ?_⟩
    simpa [field?_map] using hwidth h f hf
  · rintro ⟨htag, hpositional, hfields, hwidth⟩
    refine ⟨htag, List.forall₂_map_left_iff.mpr hpositional,
      fun f b hb => (hfield f b).mpr (hfields f b hb), fun h f hf => ?_⟩
    simpa [field?_map] using hwidth h f hf

namespace Ty

/-- Two checks in a row pass when both of them do. -/
theorem isOk_bind_iff {ε δ : Type} {x : Except ε Unit} {y : Except ε δ} :
    (x >>= fun _ => y).isOk = true ↔ x.isOk = true ∧ y.isOk = true := by
  cases x <;> simp [bind, Except.bind, Except.isOk, Except.toBool]

/-- A condition among checks has to hold. -/
theorem isOk_require_iff {c : Prop} [Decidable c] {kind : MismatchKind} {rest : TypeCheck} :
    (if c then (do Except.ok (); rest) else (do mismatch kind; rest) : TypeCheck).isOk = true ↔
      c ∧ rest.isOk = true := by
  split_ifs with hc
  · exact ⟨fun h => ⟨hc, h⟩, fun h => h.2⟩
  · refine ⟨fun h => ?_, fun h => absurd h.1 hc⟩
    cases h

/-- A mismatch does not pass. -/
theorem isOk_mismatch (kind : MismatchKind) : (mismatch kind).isOk = false := rfl

/-- The check of a member passes as seen from its tuple too. -/
theorem isOk_checkMember {key : TupleKey} {outcome : TypeCheck} :
    (checkMember key outcome).isOk = outcome.isOk := by
  cases outcome <;> rfl

/-- The check of the arities passes when they are equal. -/
theorem isOk_checkArity_iff {t : Tuple α} {u : Tuple β} :
    (checkArity t u).isOk = true ↔ t.arity = u.arity := by
  unfold checkArity
  split_ifs with h
  · exact ⟨fun _ => h, fun _ => rfl⟩
  · exact ⟨fun hok => by simp [isOk_mismatch] at hok, fun heq => absurd heq h⟩

/-- The checks of positional members pass when each one does. -/
theorem isOk_checkPositional_iff {i : Nat} {checks : List (Ty → TypeCheck)} {members : List Ty}
    (h : checks.length = members.length) :
    (checkPositional i checks members).isOk = true ↔
      List.Forall₂ (fun check b => (check b).isOk = true) checks members := by
  induction checks generalizing i members with
  | nil =>
      obtain rfl : members = [] := List.eq_nil_of_length_eq_zero h.symm
      simp [checkPositional, Except.isOk, Except.toBool]
  | cons check checks ih =>
      cases members with
      | nil => simp at h
      | cons member members =>
          rw [checkPositional, isOk_bind_iff, isOk_checkMember, List.forall₂_cons,
            ih (Nat.succ.inj h)]

/-- The checks of expected fields pass when each field is there and passes. -/
theorem isOk_checkFields_iff {found : Tuple (Ty → TypeCheck)} {expected : List (Symbol × Ty)} :
    (checkFields found expected).isOk = true ↔
      ∀ x ∈ expected, ∃ check, found.field? x.1 = some check ∧ (check x.2).isOk = true := by
  induction expected with
  | nil => simp [checkFields, Except.isOk, Except.toBool]
  | cons x expected ih =>
      obtain ⟨f, b⟩ := x
      simp only [checkFields, List.forall_mem_cons]
      cases hf : found.field? f with
      | none => simp [bind, Except.bind, mismatch, Except.isOk, Except.toBool]
      | some check =>
          simp only [isOk_bind_iff, isOk_checkMember, ih, Option.some.injEq, exists_eq_left']

/-- The checks of the fields on both sides pass when each one does. -/
theorem isOk_checkPresentFields_iff {found : Tuple (Ty → TypeCheck)}
    {expected : List (Symbol × Ty)} :
    (checkPresentFields found expected).isOk = true ↔
      ∀ x ∈ expected, ∀ check, found.field? x.1 = some check → (check x.2).isOk = true := by
  induction expected with
  | nil => simp [checkPresentFields, Except.isOk, Except.toBool]
  | cons x expected ih =>
      obtain ⟨f, b⟩ := x
      simp only [checkPresentFields, List.forall_mem_cons]
      cases hf : found.field? f with
      | none => simpa [bind, Except.bind] using ih
      | some check =>
          simp only [isOk_bind_iff, isOk_checkMember, ih, Option.some.injEq, forall_eq']

/-- No field is extra when all of them are on the other side. -/
theorem extraField?_eq_none_iff {a b : Layout} :
    extraField? a b = none ↔ ∀ f ∈ a.fields, f ∈ b.fields := by
  unfold extraField?
  rw [List.find?_eq_none, Layout.symbols_index]
  simp only [mem_sortByKey, Bool.not_eq_true', Bool.not_eq_false, Layout.hasField_iff]

/-- One layout has all fields of another one. -/
theorem extraField?_eq_none_iff_field? {t : Tuple α} {u : Tuple β} (ht : t.WellFormed)
    (hu : u.WellFormed) :
    extraField? t.layout u.layout = none ↔ ∀ f, u.field? f = none → t.field? f = none := by
  rw [extraField?_eq_none_iff]
  simp only [ht.field?_eq_none_iff, hu.field?_eq_none_iff, not_imp_not]

/-- The check of the width passes unless it is exact and a field is extra. -/
theorem isOk_checkWidth_iff {width : WidthPolicy} {t : Tuple α} {u : Tuple β} (ht : t.WellFormed)
    (hu : u.WellFormed) :
    (checkWidth width t.layout u.layout).isOk = true ↔
      (width = .exact → ∀ f, u.field? f = none → t.field? f = none) := by
  cases width with
  | extensible =>
      refine ⟨fun _ h => ?_, fun _ => rfl⟩
      cases h
  | exact =>
      rw [← extraField?_eq_none_iff_field? ht hu]
      unfold checkWidth
      cases extraField? t.layout u.layout with
      | none => exact ⟨fun _ _ => rfl, fun _ => rfl⟩
      | some f =>
          refine ⟨fun h => ?_, fun h => ?_⟩
          · cases h
          · cases h rfl

/-- The rules for subtyping of tuple types find no mismatch exactly when the one stands for the
other. -/
theorem isOk_checkTuple_iff {policy : TuplePolicy} {t : Tuple (Ty → TypeCheck)} {u : Tuple Ty}
    (ht : t.WellFormed) (hu : u.WellFormed) :
    (checkTuple policy t u).isOk = true ↔
      t.StandsFor policy (fun check b => (check b).isOk = true) u := by
  unfold checkTuple
  simp only [isOk_require_iff, isOk_bind_iff, isOk_checkArity_iff, isOk_checkFields_iff,
    isOk_checkWidth_iff ht hu, TagPolicy.accepts_iff_allows]
  constructor
  · rintro ⟨harity, htag, hpositional, hfields, hwidth⟩
    have hlength : t.positional.length = u.positional.length := by
      rw [ht.positional_length, hu.positional_length]
      exact harity
    exact ⟨htag, (isOk_checkPositional_iff hlength).mp hpositional,
      fun f b hb => hfields (f, b) (hu.mem_namedAscending_iff.mpr hb), hwidth⟩
  · rintro ⟨htag, hpositional, hfield, hwidth⟩
    exact ⟨Tuple.arity_eq_of_positional hpositional ht hu, htag,
      (isOk_checkPositional_iff hpositional.length_eq).mpr hpositional,
      fun x hx => hfield x.1 x.2 (hu.mem_namedAscending_iff.mp hx), hwidth⟩

/-- The rules for equivalence of tuple types find no mismatch exactly when tags and fields are
equal and all members pass. -/
theorem isOk_checkSameTuple_iff {t : Tuple (Ty → TypeCheck)} {u : Tuple Ty} (ht : t.WellFormed)
    (hu : u.WellFormed) :
    (checkSameTuple t u).isOk = true ↔ t.Rel (fun check b => (check b).isOk = true) u := by
  have hlayouts := extraField?_eq_none_iff_field? ht hu
  have hlayouts' := extraField?_eq_none_iff_field? hu ht
  unfold checkSameTuple
  dsimp only
  rw [isOk_bind_iff, isOk_require_iff, isOk_checkArity_iff]
  constructor
  · rintro ⟨harity, htag, h⟩
    -- a field on one side only would have ended the check before any member is compared
    have hmissing : extraField? u.layout t.layout = none := by
      cases hm : extraField? u.layout t.layout with
      | none => rfl
      | some f => rw [hm] at h; cases h
    have hextra : extraField? t.layout u.layout = none := by
      cases he : extraField? t.layout u.layout with
      | none => rfl
      | some f => rw [hmissing, he] at h; cases h
    rw [hmissing, hextra] at h
    simp only [isOk_bind_iff, isOk_checkPresentFields_iff] at h
    obtain ⟨-, -, hpositional, hfields⟩ := h
    have hlength : t.positional.length = u.positional.length := by
      rw [ht.positional_length, hu.positional_length]
      exact harity
    refine ⟨htag, (isOk_checkPositional_iff hlength).mp hpositional, fun f => ?_⟩
    cases hb : u.field? f with
    | none =>
        rw [hlayouts.mp hextra f hb]
        exact .none
    | some b =>
        cases ha : t.field? f with
        | none =>
            rw [hlayouts'.mp hmissing f ha] at hb
            cases hb
        | some check =>
            exact .some (hfields (f, b) (hu.mem_namedAscending_iff.mpr hb) check ha)
  · rintro ⟨htag, hpositional, hfield⟩
    refine ⟨Tuple.arity_eq_of_positional hpositional ht hu, htag, ?_⟩
    have hmissing : extraField? u.layout t.layout = none :=
      hlayouts'.mpr fun f => (eq_none_iff_of_rel (hfield f)).mp
    have hextra : extraField? t.layout u.layout = none :=
      hlayouts.mpr fun f => (eq_none_iff_of_rel (hfield f)).mpr
    rw [hmissing, hextra]
    simp only [isOk_bind_iff, isOk_checkPresentFields_iff]
    refine ⟨rfl, rfl, (isOk_checkPositional_iff hpositional.length_eq).mpr hpositional, ?_⟩
    rintro ⟨f, b⟩ hmem check hcheck
    have hrel := hfield f
    rw [hcheck, hu.mem_namedAscending_iff.mp hmem] at hrel
    cases hrel with
    | some hok => exact hok

end Ty

end tuple

/-! ### Types -/

namespace Ty

variable {policy : TuplePolicy}

/-- `Unknown` is below every type. -/
theorem isSubtype_unknown_left (b : Ty) : isSubtype policy .unknown b = true := rfl

/-- `Void` is below every type. -/
theorem isSubtype_void_left (b : Ty) : isSubtype policy .void b = true := rfl

/-- A union is below what all its members are below. -/
theorem isSubtype_union_left {members : List Ty} {b : Ty} :
    isSubtype policy (.union members) b = true ↔ ∀ a ∈ members, isSubtype policy a b = true := by
  unfold isSubtype
  rw [checkSubtype]
  induction members with
  | nil => simp [checkEachSubtype, Except.isOk, Except.toBool]
  | cons a members ih => rw [checkEachSubtype, isOk_bind_iff, List.forall_mem_cons, ih]

/-- Some member accepts when there is a member whose check passes. -/
theorem someAgainst_iff {sub : Ty} {check : Ty → TypeCheck} {members : List Ty} :
    someAgainst sub check members = true ↔
      ∃ m ∈ members, (against sub check m).isOk = true := by
  induction members with
  | nil => simp [someAgainst]
  | cons m members ih => simp [someAgainst, ih]

/-- The check of an atomic type looks at the right type before it looks at its own parts. -/
theorem exists_checkSubtype_eq_against (policy : TuplePolicy) {a : Ty} (ha : a.IsAtomic) :
    ∃ check, ∀ b, checkSubtype policy a b = against a check b := by
  cases a with
  | scalar s => exact ⟨_, fun b => by rw [checkSubtype]⟩
  | tuple t => exact ⟨_, fun b => by rw [checkSubtype]⟩
  | unknown => cases ha
  | void => cases ha
  | union members => cases ha

/-- An atomic type is below a union when it is below some member. -/
theorem isSubtype_union_right {a : Ty} (ha : a.IsAtomic) {members : List Ty} :
    isSubtype policy a (.union members) = true ↔ ∃ b ∈ members, isSubtype policy a b = true := by
  obtain ⟨check, hcheck⟩ := exists_checkSubtype_eq_against policy ha
  unfold isSubtype
  simp only [hcheck]
  rw [against, ← someAgainst_iff]
  split_ifs with h
  · exact ⟨fun _ => h, fun _ => rfl⟩
  · refine ⟨fun hok => ?_, fun hsome => absurd hsome h⟩
    cases hok

/-- Every type is below `Unknown`. -/
theorem isSubtype_unknown_right {a : Ty} (ha : a.WellFormed) :
    isSubtype policy a .unknown = true := by
  induction ha with
  | unknown => rfl
  | void => rfl
  | scalar s => rfl
  | tuple _ _ _ => rfl
  | union _ ih => exact isSubtype_union_left.mpr ih

/-- No atomic type is below `Void`. -/
theorem not_isSubtype_void {a : Ty} (ha : a.IsAtomic) : isSubtype policy a .void = false := by
  cases a with
  | scalar s => rfl
  | tuple t => rfl
  | unknown => cases ha
  | void => cases ha
  | union members => cases ha

/-- Only equal scalars are below each other. -/
theorem isSubtype_scalar_scalar {s s' : Scalar} :
    isSubtype policy (.scalar s) (.scalar s') = true ↔ s = s' := by
  show (if some s' = some s then Except.ok () else mismatch _ : TypeCheck).isOk = true ↔ _
  split_ifs with h
  · exact ⟨fun _ => (Option.some.inj h).symm, fun _ => rfl⟩
  · refine ⟨fun hok => ?_, fun heq => absurd (congrArg some heq.symm) h⟩
    cases hok

/-- A scalar is below no tuple type. -/
theorem not_isSubtype_scalar_tuple {s : Scalar} {t : Tuple Ty} :
    isSubtype policy (.scalar s) (.tuple t) = false := rfl

/-- A tuple type is below no scalar. -/
theorem not_isSubtype_tuple_scalar {t : Tuple Ty} {s : Scalar} :
    isSubtype policy (.tuple t) (.scalar s) = false := rfl

/-- A tuple type is below one that it may stand for. -/
theorem isSubtype_tuple_tuple {t u : Tuple Ty} (ht : t.WellFormed) (hu : u.WellFormed) :
    isSubtype policy (.tuple t) (.tuple u) = true ↔
      t.StandsFor policy (fun a b => isSubtype policy a b = true) u := by
  unfold isSubtype
  rw [checkSubtype_tuple, isOk_checkTuple_iff (ht.map _) hu, Tuple.standsFor_map_left]

/-- Tuple types are equivalent member by member. -/
theorem isEquivalent_tuple_tuple {t u : Tuple Ty} (ht : t.WellFormed) (hu : u.WellFormed) :
    isEquivalent policy (.tuple t) (.tuple u) = true ↔
      t.Rel (fun a b => isEquivalent policy a b = true) u := by
  unfold isEquivalent
  rw [checkEquivalent_tuple, isOk_checkSameTuple_iff (ht.map _) hu, Tuple.rel_map_left]

/-- `Unknown` is equivalent to every type. -/
theorem isEquivalent_unknown_left (b : Ty) : isEquivalent policy .unknown b = true := rfl

/-- Every type is equivalent to `Unknown`. -/
theorem isEquivalent_unknown_right (a : Ty) : isEquivalent policy a .unknown = true := by
  cases a <;> rfl

/-- Apart from `Unknown` and a pair of tuple types, equivalence is checked as mutual subtyping. -/
theorem checkEquivalent_eq_checkMutualSubtype {a b : Ty} (ha : a.isUnknown = false)
    (hb : b.isUnknown = false) (hnone : a.tuple? = none ∨ b.tuple? = none) :
    checkEquivalent policy a b = checkMutualSubtype policy a b := by
  have hb' : ¬b.isUnknown = true := by rw [hb]; exact Bool.false_ne_true
  cases a with
  | unknown => cases ha
  | void => rw [checkEquivalent, if_neg hb']
  | scalar s => rw [checkEquivalent, if_neg hb']
  | union members => rw [checkEquivalent, if_neg hb']
  | tuple t =>
      cases b with
      | unknown => cases hb
      | tuple u => rcases hnone with h | h <;> cases h
      | void => rfl
      | scalar s => rfl
      | union members => rfl

/-- Types that are not both tuple types are equivalent as mutual subtypes. -/
theorem isEquivalent_iff_of_tuple?_eq_none {a b : Ty} (ha : a.isUnknown = false)
    (hb : b.isUnknown = false) (hnone : a.tuple? = none ∨ b.tuple? = none) :
    isEquivalent policy a b = true ↔
      isSubtype policy a b = true ∧ isSubtype policy b a = true := by
  unfold isEquivalent
  rw [checkEquivalent_eq_checkMutualSubtype ha hb hnone, checkMutualSubtype, isOk_bind_iff]
  rfl

end Ty

end TaggedTuple
