import TaggedTuple.Proofs.EqualityLaws
import TaggedTuple.Proofs.Transparency.Operations

/-!
# Comparison of types respects their equality

Equal types may declare their fields in different orders, at every depth. Both comparisons go
through fields in ascending order, so equal types are compared with equal results: the same verdict,
and a mismatch at the same path and of an equal kind (`comparison_respects_equality`).

There is one lemma for each function of the comparison. A check that stands for a type on the left
is replaced by one that is `Alike`: on types that agree it has the same outcome. The way through the
left type is by induction on two types that agree (`Agree.induction`), and so is the way through
unions on the right.
-/

namespace TaggedTuple

/-- Neither comparison finds a mismatch, or both find equal ones. -/
def TypeCheck.Same : TypeCheck → TypeCheck → Prop := ExceptRel (fun m m' => (m == m') = true) Eq

namespace Ty

/-! ### Types that agree -/

/-- Both types are well-formed, and they are equal. -/
structure Agree (a b : Ty) : Prop where
  left : a.WellFormed
  right : b.WellFormed
  beq : (a == b) = true

/-- A well-formed type agrees with itself. -/
theorem Agree.refl {a : Ty} (ha : a.WellFormed) : a.Agree a := ⟨ha, ha, beq_refl ha⟩

/-- Tuple types agree exactly when their members do. -/
theorem agree_tuple_iff {t u : Tuple Ty} :
    Agree (tuple t) (tuple u) ↔ t.WellFormed ∧ u.WellFormed ∧ Tuple.Rel Agree t u := by
  constructor
  · rintro ⟨ht, hu, hbeq⟩
    obtain ⟨shape, members⟩ := wellFormed_tuple_iff.mp ht
    obtain ⟨shape', members'⟩ := wellFormed_tuple_iff.mp hu
    obtain ⟨_, ⟨⟩, htu⟩ := tuple_beq_iff.mp hbeq
    rw [Tuple.beq_iff shape shape'] at htu
    exact ⟨shape, shape', htu.imp fun a ha b hb hab => ⟨members a ha, members' b hb, hab⟩⟩
  · rintro ⟨shape, shape', h⟩
    refine ⟨.tuple shape ?_, .tuple shape' ?_, ?_⟩
    · exact h.forall_left shape fun a b hab => hab.left
    · exact h.flip.forall_left shape' fun b a hab => hab.right
    · refine tuple_beq_iff.mpr ⟨u, rfl, ?_⟩
      rw [Tuple.beq_iff shape shape']
      exact h.imp fun a _ b _ hab => hab.beq

/-- Unions agree exactly when their members do, one by one. -/
theorem agree_union_iff {members others : List Ty} :
    Agree (union members) (union others) ↔ List.Forall₂ Agree members others := by
  constructor
  · rintro ⟨ha, hb, hbeq⟩
    obtain ⟨_, ⟨⟩, hforall⟩ := union_beq_iff.mp hbeq
    apply forall₂_imp hforall
    intro a hmem b hmem' hab
    exact ⟨wellFormed_union_iff.mp ha a hmem, wellFormed_union_iff.mp hb b hmem', hab⟩
  · intro h
    refine ⟨.union fun a ha => ?_, .union fun b hb => ?_, union_beq_iff.mpr ⟨others, rfl, ?_⟩⟩
    · obtain ⟨b, -, hab⟩ := forall₂_exists_right h a ha
      exact hab.left
    · obtain ⟨a, -, hab⟩ := forall₂_exists_right h.flip b hb
      exact hab.right
    · exact h.imp fun a b hab => hab.beq

/-- Induction on two types that agree. -/
@[elab_as_elim]
theorem Agree.induction {motive : (a b : Ty) → a.Agree b → Prop}
    (unknown : ∀ h, motive .unknown .unknown h) (void : ∀ h, motive .void .void h)
    (scalar : ∀ s h, motive (.scalar s) (.scalar s) h)
    (tuple : ∀ (t u : Tuple Ty) h, t.WellFormed → u.WellFormed →
      t.Rel (fun a b => ∃ h, motive a b h) u → motive (.tuple t) (.tuple u) h)
    (union : ∀ (members others : List Ty) h,
      List.Forall₂ (fun a b => ∃ h, motive a b h) members others →
        motive (.union members) (.union others) h)
    {a b : Ty} (h : a.Agree b) : motive a b h := by
  have hwf := h.left
  induction hwf generalizing b with
  | unknown =>
      obtain rfl := unknown_beq_iff.mp h.beq
      exact unknown h
  | void =>
      obtain rfl := void_beq_iff.mp h.beq
      exact void h
  | scalar s =>
      obtain rfl := scalar_beq_iff.mp h.beq
      exact scalar s h
  | tuple _ _ ih =>
      obtain ⟨u, rfl, -⟩ := tuple_beq_iff.mp h.beq
      obtain ⟨ht, hu, hrel⟩ := agree_tuple_iff.mp h
      apply tuple _ u h ht hu
      exact hrel.imp fun a ha b _ hab => ⟨hab, ih a ha hab⟩
  | union _ ih =>
      obtain ⟨others, rfl, -⟩ := union_beq_iff.mp h.beq
      apply union _ others h
      exact forall₂_imp (agree_union_iff.mp h) fun a ha b _ hab => ⟨hab, ih a ha hab⟩

/-- Types that agree are `Unknown` together. -/
theorem Agree.isUnknown_eq {a b : Ty} (h : a.Agree b) : a.isUnknown = b.isUnknown := by
  induction h using Agree.induction <;> rfl

/-- Types that agree are the same scalar, if they are scalars. -/
theorem Agree.scalar?_eq {a b : Ty} (h : a.Agree b) : a.scalar? = b.scalar? := by
  induction h using Agree.induction <;> rfl

/-- Types that agree are tuple types together, and those agree. -/
theorem Agree.tuple?_rel {a b : Ty} (h : a.Agree b) :
    Option.Rel (fun t u => (tuple t).Agree (tuple u)) a.tuple? b.tuple? := by
  induction h using Agree.induction with
  | unknown _ => exact .none
  | void _ => exact .none
  | scalar _ _ => exact .none
  | union _ _ _ _ => exact .none
  | tuple t u h _ _ _ => exact .some h

end Ty

/-! ### Outcomes that are the same -/

namespace TypeCheck

variable {x x' y y' : TypeCheck}

/-- Two checks that pass are the same. -/
theorem same_ok : Same (.ok ()) (.ok ()) := .ok rfl

/-- Equal kinds of mismatch at the root are the same. -/
theorem same_mismatch {kind kind' : MismatchKind} (h : (kind == kind') = true) :
    Same (Ty.mismatch kind) (Ty.mismatch kind') :=
  .error (TypeMismatch.beq_iff.mpr ⟨rfl, h⟩)

/-- Types that agree are incompatible in the same way. -/
theorem same_incompatible {a a' b b' : Ty} (ha : a.Agree a') (hb : b.Agree b') :
    Same (Ty.mismatch (.incompatible b a)) (Ty.mismatch (.incompatible b' a')) := by
  apply same_mismatch
  simp [ha.beq, hb.beq]

/-- Outcomes that are the same pass together. -/
theorem Same.isOk_eq (h : x.Same x') : x.isOk = x'.isOk := by
  cases h <;> rfl

/-- Checks that are the same stay so in a row. -/
theorem Same.bind (h : x.Same x') (h' : y.Same y') :
    Same (x >>= fun _ => y) (x' >>= fun _ => y') := by
  cases h with
  | ok _ => exact h'
  | error hm => exact .error hm

/-- One condition among checks on both sides. -/
theorem Same.require {c : Prop} [Decidable c] {kind : MismatchKind}
    (hkind : (kind == kind) = true) (h : x.Same x') :
    Same (if c then (do Except.ok (); x) else (do Ty.mismatch kind; x))
      (if c then (do Except.ok (); x') else (do Ty.mismatch kind; x')) := by
  split_ifs
  · exact h
  · exact same_mismatch hkind

/-- Outcomes that are the same stay so as seen from the tuple. -/
theorem Same.checkMember (key : TupleKey) (h : x.Same x') :
    Same (Ty.checkMember key x) (Ty.checkMember key x') := by
  cases h with
  | ok _ => exact same_ok
  | error hm =>
      obtain ⟨hpath, hkind⟩ := TypeMismatch.beq_iff.mp hm
      exact .error (TypeMismatch.beq_iff.mpr ⟨congrArg (key :: ·) hpath, hkind⟩)

end TypeCheck

namespace Ty

open TypeCheck

/-- On types that agree both checks have the same outcome. -/
def Alike (check check' : Ty → TypeCheck) : Prop :=
  ∀ b b' : Ty, b.Agree b' → (check b).Same (check' b')

/-! ### The rules for tuples -/

/-- Which field is extra depends on the sets of fields only. -/
theorem extraField?_eq_of_perm {a a' b b' : Layout} (ha : a.fields.Perm a'.fields)
    (hb : b.fields.Perm b'.fields) : extraField? a b = extraField? a' b' := by
  have hsymbols : a.index.symbols = a'.index.symbols := by
    rw [Layout.symbols_index, Layout.symbols_index]
    exact (Layout.sortByKey_fields_eq_iff a.fields_nodup).mpr ha
  have hlacks : ∀ f, (!b.hasField f) = !b'.hasField f := by
    intro f
    rw [Bool.not_inj_iff, Bool.eq_iff_iff, Layout.hasField_iff, Layout.hasField_iff, hb.mem_iff]
  unfold extraField?
  simp only [hsymbols, hlacks]

/-- The check of positional members respects agreement. -/
theorem checkPositional_same {checks checks' : List (Ty → TypeCheck)} {members members' : List Ty}
    (hchecks : List.Forall₂ Alike checks checks') (hmembers : List.Forall₂ Agree members members')
    (i : Nat) : (checkPositional i checks members).Same (checkPositional i checks' members') := by
  induction hchecks generalizing i members members' with
  | nil => exact same_ok
  | cons hcheck _ ih =>
      cases hmembers with
      | nil => exact same_ok
      | cons hmember hmembers =>
          apply Same.bind
          · exact (hcheck _ _ hmember).checkMember _
          · exact ih hmembers (i + 1)

section fields

variable {found found' : Tuple (Ty → TypeCheck)}
  (hfound : ∀ f, Option.Rel Alike (found.field? f) (found'.field? f))
  {expected expected' : List (Symbol × Ty)}
  (hexpected : List.Forall₂ (fun x y => x.1 = y.1 ∧ Agree x.2 y.2) expected expected')
include hfound hexpected

/-- The check of expected fields respects agreement. -/
theorem checkFields_same : (checkFields found expected).Same (checkFields found' expected') := by
  induction hexpected with
  | nil => exact same_ok
  | @cons x y _ _ hxy _ ih =>
      obtain ⟨f, b⟩ := x
      obtain ⟨g, b'⟩ := y
      obtain ⟨rfl, hb⟩ : f = g ∧ Agree b b' := hxy
      have hf := hfound f
      rw [checkFields, checkFields]
      generalize found.field? f = check at hf ⊢
      generalize found'.field? f = check' at hf ⊢
      cases hf with
      | none =>
          apply same_mismatch
          simp
      | some hcheck =>
          apply Same.bind
          · exact (hcheck _ _ hb).checkMember _
          · exact ih

/-- The check of the fields on both sides respects agreement. -/
theorem checkPresentFields_same :
    (checkPresentFields found expected).Same (checkPresentFields found' expected') := by
  induction hexpected with
  | nil => exact same_ok
  | @cons x y _ _ hxy _ ih =>
      obtain ⟨f, b⟩ := x
      obtain ⟨g, b'⟩ := y
      obtain ⟨rfl, hb⟩ : f = g ∧ Agree b b' := hxy
      have hf := hfound f
      rw [checkPresentFields, checkPresentFields]
      generalize found.field? f = check at hf ⊢
      generalize found'.field? f = check' at hf ⊢
      cases hf with
      | none => exact ih
      | some hcheck =>
          apply Same.bind
          · exact (hcheck _ _ hb).checkMember _
          · exact ih

end fields

section tuple

variable {t t' : Tuple (Ty → TypeCheck)} {u u' : Tuple Ty} (ht : t.Rel Alike t')
  (hu : u.Rel Agree u') (hwt : t.WellFormed) (hwt' : t'.WellFormed) (hwu : u.WellFormed)
  (hwu' : u'.WellFormed)
include ht hu hwt hwt' hwu hwu'

/-- The check of the arities respects agreement. -/
theorem checkArity_same : (checkArity t u).Same (checkArity t' u') := by
  unfold checkArity
  rw [Tuple.arity_eq_of_positional ht.positional hwt hwt',
    Tuple.arity_eq_of_positional hu.positional hwu hwu']
  split_ifs
  · exact same_ok
  · apply same_mismatch
    simp

/-- The check of tuple types for subtyping respects agreement. -/
theorem checkTuple_same (policy : TuplePolicy) :
    (checkTuple policy t u).Same (checkTuple policy t' u') := by
  have hextra : extraField? t.layout u.layout = extraField? t'.layout u'.layout :=
    extraField?_eq_of_perm (ht.fields_perm hwt hwt') (hu.fields_perm hwu hwu')
  unfold checkTuple
  rw [ht.tag_eq, hu.tag_eq]
  apply Same.bind (checkArity_same ht hu hwt hwt' hwu hwu')
  apply Same.require
  · simp
  apply Same.bind (checkPositional_same ht.positional hu.positional 0)
  apply Same.bind (checkFields_same ht.field (hu.namedAscending hwu hwu'))
  unfold checkWidth
  rw [hextra]
  cases policy.width with
  | extensible => exact same_ok
  | exact =>
      cases extraField? t'.layout u'.layout with
      | none => exact same_ok
      | some f =>
          apply same_mismatch
          simp

/-- The check of tuple types for equivalence respects agreement. -/
theorem checkSameTuple_same : (checkSameTuple t u).Same (checkSameTuple t' u') := by
  have hmissing : extraField? u.layout t.layout = extraField? u'.layout t'.layout :=
    extraField?_eq_of_perm (hu.fields_perm hwu hwu') (ht.fields_perm hwt hwt')
  have hextra : extraField? t.layout u.layout = extraField? t'.layout u'.layout :=
    extraField?_eq_of_perm (ht.fields_perm hwt hwt') (hu.fields_perm hwu hwu')
  unfold checkSameTuple
  rw [ht.tag_eq, hu.tag_eq, hmissing, hextra]
  apply Same.bind (checkArity_same ht hu hwt hwt' hwu hwu')
  apply Same.require
  · simp
  cases extraField? u'.layout t'.layout with
  | some f =>
      apply same_mismatch
      simp
  | none =>
      cases extraField? t'.layout u'.layout with
      | some f =>
          apply same_mismatch
          simp
      | none =>
          apply Same.bind (checkPositional_same ht.positional hu.positional 0)
          exact checkPresentFields_same ht.field (hu.namedAscending hwu hwu')

end tuple

/-! ### Subtyping -/

/-- The search for a member that accepts respects agreement. -/
theorem someAgainst_eq {sub sub' : Ty} {check check' : Ty → TypeCheck} {members others : List Ty}
    (h : List.Forall₂ (fun m n => (against sub check m).Same (against sub' check' n)) members
      others) :
    someAgainst sub check members = someAgainst sub' check' others := by
  induction h with
  | nil => rfl
  | cons hmn _ ih => rw [someAgainst, someAgainst, hmn.isOk_eq, ih]

/-- A type on the left that is no union meets types that agree with the same outcome, if its own
check does. -/
theorem against_alike {sub sub' : Ty} {check check' : Ty → TypeCheck} (hsub : sub.Agree sub')
    (hcheck : Alike check check') : Alike (against sub check) (against sub' check') := by
  intro b b' hb
  induction hb using Agree.induction with
  | unknown _ => exact same_ok
  | void hb => exact hcheck _ _ hb
  | scalar s hb => exact hcheck _ _ hb
  | tuple u u' hb _ _ _ => exact hcheck _ _ hb
  | union members others hb ih =>
      have hsome : someAgainst sub check members = someAgainst sub' check' others := by
        apply someAgainst_eq
        exact ih.imp fun m n hmn => hmn.2
      rw [against, against, hsome]
      split_ifs
      · exact same_ok
      · exact same_incompatible hsub hb

/-- The check of each member of a union respects agreement. -/
theorem checkEachSubtype_alike {policy : TuplePolicy} {subs subs' : List Ty}
    (h : List.Forall₂ (fun a a' => Alike (checkSubtype policy a) (checkSubtype policy a')) subs
      subs') : Alike (checkEachSubtype policy subs) (checkEachSubtype policy subs') := by
  intro b b' hb
  induction h with
  | nil => exact same_ok
  | cons ha _ ih =>
      rw [checkEachSubtype, checkEachSubtype]
      exact (ha b b' hb).bind ih

/-- The check for subtyping respects agreement. -/
theorem checkSubtype_alike (policy : TuplePolicy) {a a' : Ty} (h : a.Agree a') :
    Alike (checkSubtype policy a) (checkSubtype policy a') := by
  induction h using Agree.induction with
  | unknown _ =>
      intro b b' _
      rw [checkSubtype, checkSubtype]
      exact same_ok
  | void _ =>
      intro b b' _
      rw [checkSubtype, checkSubtype]
      exact same_ok
  | scalar s h =>
      intro b b' hb
      rw [checkSubtype, checkSubtype]
      refine against_alike h (fun b b' hb => ?_) b b' hb
      rw [hb.scalar?_eq]
      split_ifs
      · exact same_ok
      · exact same_incompatible h hb
  | tuple t t' h ht ht' ih =>
      have hchecks : Tuple.Rel Alike (t.map (checkSubtype policy)) (t'.map (checkSubtype policy)) :=
        ih.map fun a _ a' _ haa => haa.2
      intro b b' hb
      rw [checkSubtype, checkSubtype, subtypeMembers_eq_map, subtypeMembers_eq_map]
      refine against_alike h (fun b b' hb => ?_) b b' hb
      -- only the kind of the right type matters for the choice of the rule
      have hright := hb.tuple?_rel
      generalize b.tuple? = found at hright ⊢
      generalize b'.tuple? = found' at hright ⊢
      cases hright with
      | none => exact same_incompatible h hb
      | some hu =>
          obtain ⟨hwu, hwu', hu⟩ := agree_tuple_iff.mp hu
          exact checkTuple_same hchecks hu (ht.map _) (ht'.map _) hwu hwu' policy
  | union members others _ ih =>
      intro b b' hb
      rw [checkSubtype, checkSubtype]
      exact checkEachSubtype_alike (ih.imp fun a a' haa => haa.2) b b' hb

/-- Types that agree have the same subtypes and supertypes. -/
theorem Agree.isSubtype_eq {policy : TuplePolicy} {a a' b b' : Ty} (ha : a.Agree a')
    (hb : b.Agree b') : isSubtype policy a b = isSubtype policy a' b' :=
  (checkSubtype_alike policy ha b b' hb).isOk_eq

/-! ### Equivalence -/

/-- The check for mutual subtyping respects agreement. -/
theorem checkMutualSubtype_same (policy : TuplePolicy) {a a' b b' : Ty} (ha : a.Agree a')
    (hb : b.Agree b') :
    (checkMutualSubtype policy a b).Same (checkMutualSubtype policy a' b') := by
  unfold checkMutualSubtype
  apply Same.bind
  · exact checkSubtype_alike policy ha b b' hb
  · exact checkSubtype_alike policy hb a a' ha

/-- Everything is equivalent to `Unknown`. -/
theorem checkEquivalent_unknown_right (policy : TuplePolicy) (a : Ty) :
    checkEquivalent policy a .unknown = .ok () := by
  cases a <;> rfl

/-- Apart from pairs of tuple types, mutual subtyping settles it. -/
theorem checkEquivalent_same_of_not_tuple (policy : TuplePolicy) {a a' b b' : Ty}
    (ha : a.Agree a') (hb : b.Agree b') (hnone : a.tuple? = none ∨ b.tuple? = none) :
    (checkEquivalent policy a b).Same (checkEquivalent policy a' b') := by
  have hnone' : a'.tuple? = none ∨ b'.tuple? = none := by
    rwa [← eq_none_iff_of_rel ha.tuple?_rel, ← eq_none_iff_of_rel hb.tuple?_rel]
  cases hau : a.isUnknown with
  | true =>
      have hau' := ha.isUnknown_eq ▸ hau
      rw [isUnknown_iff.mp hau, isUnknown_iff.mp hau', checkEquivalent, checkEquivalent]
      exact same_ok
  | false =>
      cases hbu : b.isUnknown with
      | true =>
          have hbu' := hb.isUnknown_eq ▸ hbu
          rw [isUnknown_iff.mp hbu, isUnknown_iff.mp hbu', checkEquivalent_unknown_right,
            checkEquivalent_unknown_right]
          exact same_ok
      | false =>
          rw [checkEquivalent_eq_checkMutualSubtype hau hbu hnone,
            checkEquivalent_eq_checkMutualSubtype (ha.isUnknown_eq ▸ hau) (hb.isUnknown_eq ▸ hbu)
              hnone']
          exact checkMutualSubtype_same policy ha hb

/-- The check for equivalence respects agreement. -/
theorem checkEquivalent_alike (policy : TuplePolicy) {a a' : Ty} (h : a.Agree a') :
    Alike (checkEquivalent policy a) (checkEquivalent policy a') := by
  induction h using Agree.induction with
  | unknown h => exact fun b b' hb => checkEquivalent_same_of_not_tuple policy h hb (.inl rfl)
  | void h => exact fun b b' hb => checkEquivalent_same_of_not_tuple policy h hb (.inl rfl)
  | scalar s h => exact fun b b' hb => checkEquivalent_same_of_not_tuple policy h hb (.inl rfl)
  | union _ _ h _ => exact fun b b' hb => checkEquivalent_same_of_not_tuple policy h hb (.inl rfl)
  | tuple t t' h ht ht' ih =>
      have hchecks : Tuple.Rel Alike (t.map (checkEquivalent policy))
          (t'.map (checkEquivalent policy)) :=
        ih.map fun a _ a' _ haa => haa.2
      intro b b' hb
      induction hb using Agree.induction with
      | unknown hb => exact checkEquivalent_same_of_not_tuple policy h hb (.inr rfl)
      | void hb => exact checkEquivalent_same_of_not_tuple policy h hb (.inr rfl)
      | scalar s hb => exact checkEquivalent_same_of_not_tuple policy h hb (.inr rfl)
      | union _ _ hb _ => exact checkEquivalent_same_of_not_tuple policy h hb (.inr rfl)
      | tuple u u' hb hu hu' _ =>
          rw [checkEquivalent_tuple, checkEquivalent_tuple]
          obtain ⟨-, -, hright⟩ := agree_tuple_iff.mp hb
          exact checkSameTuple_same hchecks hright (ht.map _) (ht'.map _) hu hu'

/-! ### Both comparisons -/

/-- Equal types cannot be told apart by a comparison: neither its verdict nor the mismatch that it
reports depends on the order in which fields are declared, at any depth of either type. -/
theorem comparison_respects_equality (policy : TuplePolicy) {a a' b b' : Ty}
    (ha : a.WellFormed) (ha' : a'.WellFormed) (hb : b.WellFormed) (hb' : b'.WellFormed)
    (haa : (a == a') = true) (hbb : (b == b') = true) :
    (checkSubtype policy a b).Same (checkSubtype policy a' b') ∧
      (checkEquivalent policy a b).Same (checkEquivalent policy a' b') := by
  have hleft : a.Agree a' := ⟨ha, ha', haa⟩
  have hright : b.Agree b' := ⟨hb, hb', hbb⟩
  constructor
  · exact checkSubtype_alike policy hleft b b' hright
  · exact checkEquivalent_alike policy hleft b b' hright

/-- Both fields of the inner records fail, and the fields of either side are declared in both orders
at both depths. -/
theorem comparison_respects_equality_of_reordered_records :
    let policy : TuplePolicy := {}
    let record (a b : Ty) := tuple ⟨⟨0, 0, .ascendingPair 0⟩, [], [a, b]⟩
    let reversed (a b : Ty) := tuple ⟨⟨0, 1, .descendingPair 0⟩, [], [b, a]⟩
    let a := record (scalar .nil) (record (scalar .int) (scalar .str))
    let a' := reversed (scalar .nil) (reversed (scalar .int) (scalar .str))
    let b := reversed (scalar .nil) (record (scalar .bool) (union [scalar .int]))
    let b' := record (scalar .nil) (reversed (scalar .bool) (union [scalar .int]))
    let m : TypeMismatch :=
      ⟨[.field ⟨2⟩, .field ⟨1⟩], .incompatible (scalar .bool) (scalar .int)⟩
    ((a == a') = true ∧ (b == b') = true ∧ checkSubtype policy a b = .error m) ∧
      (checkSubtype policy a b).Same (checkSubtype policy a' b') ∧
      (checkEquivalent policy a b).Same (checkEquivalent policy a' b') := by
  intro policy record reversed a a' b b' m
  have hwf : a.WellFormed ∧ a'.WellFormed ∧ b.WellFormed ∧ b'.WellFormed := by
    simp [a, a', b, b', record, reversed, Tuple.members, Tuple.wellFormed_iff, Tuple.layout,
      Layout.ascendingPair, Layout.descendingPair]
  obtain ⟨ha, ha', hb, hb'⟩ := hwf
  have haa : (a == a') = true := by decide
  have hbb : (b == b') = true := by decide
  have herror : checkSubtype policy a b = .error m := by with_unfolding_all rfl
  exact ⟨⟨haa, hbb, herror⟩, comparison_respects_equality policy ha ha' hb hb' haa hbb⟩

end Ty

end TaggedTuple
