import TaggedTuple.Proofs.Ty.FirstFault
import TaggedTuple.Proofs.Ty.Order

/-!
# The expected side of an equivalence

A mismatch names an expected side and a found side. `TypeMismatch.Oriented m a b` says that along
its path what is expected belongs to `b` and what is found belongs to `a`.

The rules for tuple types report with their right side as the expected one. Other pairs of types are
compared by subtyping, in one direction and then in the other, and the second direction reports with
the sides exchanged. So the right type of an equivalence is the expected side, save where the path
leads to such a pair that passes the first direction (`expected_side_of_checkEquivalent`). A member
`Void` that is compared with a scalar makes such a pair (`not_oriented_of_void_member`).
-/

namespace TaggedTuple

namespace Ty

/-- A type is met by following a path: a step takes the member of a tuple type, and a union is
entered at one of its members. -/
inductive FoundAt : Ty → List TupleKey → Ty → Prop
  | here (a : Ty) : FoundAt a [] a
  | member {t : Tuple Ty} {key : TupleKey} {path : List TupleKey} {a x : Ty}
    (get : t.getKey key = .ok a) (onward : FoundAt a path x) : FoundAt (.tuple t) (key :: path) x
  | union {members : List Ty} {path : List TupleKey} {a x : Ty} (mem : a ∈ members)
    (onward : FoundAt a path x) : FoundAt (.union members) path x

end Ty

/-- What is expected belongs to `b` and what is found belongs to `a`, at the end of a path. -/
def MismatchKind.Oriented (path : List TupleKey) (a b : Ty) : MismatchKind → Prop
  | .incompatible expected found => b.FoundAt path expected ∧ a.FoundAt path found
  | .positionalArity expected found =>
    ∃ t u, a.FoundAt path (.tuple t) ∧ b.FoundAt path (.tuple u) ∧
      found = t.arity ∧ expected = u.arity ∧ found ≠ expected
  | .tagMismatch expected found =>
    ∃ t u, a.FoundAt path (.tuple t) ∧ b.FoundAt path (.tuple u) ∧
      found = t.tag ∧ expected = u.tag ∧ found ≠ expected
  | .missingField f =>
    ∃ t u, a.FoundAt path (.tuple t) ∧ b.FoundAt path (.tuple u) ∧
      f ∈ u.layout.fields ∧ f ∉ t.layout.fields
  | .extraField f =>
    ∃ t u, a.FoundAt path (.tuple t) ∧ b.FoundAt path (.tuple u) ∧
      f ∈ t.layout.fields ∧ f ∉ u.layout.fields

/-- A mismatch has `b` as its expected side and `a` as its found side. -/
def TypeMismatch.Oriented (m : TypeMismatch) (a b : Ty) : Prop := m.kind.Oriented m.path a b

namespace Ty

variable {policy : TuplePolicy}

/-- A path leads through tuple types on both sides to a pair of types that is no pair of tuple types
and passes the first direction of mutual subtyping. -/
inductive PassesFirst (policy : TuplePolicy) : Ty → Ty → List TupleKey → Prop
  | here {a b : Ty} {path : List TupleKey} (hnone : a.tuple? = none ∨ b.tuple? = none)
    (passes : isSubtype policy a b = true) : PassesFirst policy a b path
  | member {t u : Tuple Ty} {key : TupleKey} {path : List TupleKey} {a b : Ty}
    (left : t.getKey key = .ok a) (right : u.getKey key = .ok b)
    (onward : PassesFirst policy a b path) : PassesFirst policy (.tuple t) (.tuple u) (key :: path)

/-- Off tuple types the first direction is subtyping. -/
theorem passesFirst_iff_of_not_tuple {a b : Ty} {path : List TupleKey}
    (hnone : a.tuple? = none ∨ b.tuple? = none) :
    PassesFirst policy a b path ↔ isSubtype policy a b = true := by
  constructor
  · rintro (⟨-, passes⟩ | _)
    · exact passes
    · rcases hnone with h | h <;> cases h
  · exact .here hnone

/-- A pair of tuple types is compared member by member. -/
theorem not_passesFirst_nil {t u : Tuple Ty} : ¬PassesFirst policy (.tuple t) (.tuple u) [] := by
  rintro (⟨h | h, -⟩ | _) <;> cases h

/-- A path into tuple types goes on from their members. -/
theorem passesFirst_cons_iff {t u : Tuple Ty} {key : TupleKey} {path : List TupleKey} {a b : Ty}
    (left : t.getKey key = .ok a) (right : u.getKey key = .ok b) :
    PassesFirst policy (.tuple t) (.tuple u) (key :: path) ↔ PassesFirst policy a b path := by
  constructor
  · rintro (⟨h | h, -⟩ | ⟨left', right', onward⟩)
    · cases h
    · cases h
    · obtain rfl := Except.ok.inj (left.symm.trans left')
      obtain rfl := Except.ok.inj (right.symm.trans right')
      exact onward
  · exact .member left right

/-! ### Orientation along a path -/

/-- A fault found in a member is a fault of the tuple types, one step further. -/
theorem oriented_within {t u : Tuple Ty} {key : TupleKey} {a b : Ty} {m : TypeMismatch}
    (left : t.getKey key = .ok a) (right : u.getKey key = .ok b) (h : m.Oriented a b) :
    (m.within key).Oriented (.tuple t) (.tuple u) := by
  obtain ⟨path, kind⟩ := m
  cases kind with
  | incompatible expected found =>
      obtain ⟨hexpected, hfound⟩ := h
      exact ⟨.member right hexpected, .member left hfound⟩
  | positionalArity expected found =>
      obtain ⟨t', u', ht, hu, hfault⟩ := h
      exact ⟨t', u', .member left ht, .member right hu, hfault⟩
  | tagMismatch expected found =>
      obtain ⟨t', u', ht, hu, hfault⟩ := h
      exact ⟨t', u', .member left ht, .member right hu, hfault⟩
  | missingField f =>
      obtain ⟨t', u', ht, hu, hfault⟩ := h
      exact ⟨t', u', .member left ht, .member right hu, hfault⟩
  | extraField f =>
      obtain ⟨t', u', ht, hu, hfault⟩ := h
      exact ⟨t', u', .member left ht, .member right hu, hfault⟩

/-- A path to a pair of types meets both of them. -/
theorem foundAt_of_leadsTo {sub sup s p : Ty} {path : List TupleKey}
    (h : LeadsTo policy sub sup path s p) : sub.FoundAt path s ∧ sup.FoundAt path p := by
  induction h with
  | here _ => exact ⟨.here _, .here _⟩
  | union first _ _ ih => exact ⟨.union (List.mem_of_getElem? first.1) ih.1, ih.2⟩
  | member _ _ left right _ ih => exact ⟨.member left ih.1, .member right ih.2⟩

/-- Subtyping has its right side as the expected one. -/
theorem oriented_of_checkSubtype {a b : Ty} (ha : a.WellFormed) (hb : b.WellFormed)
    {m : TypeMismatch} (h : checkSubtype policy a b = .error m) : m.Oriented a b := by
  obtain ⟨s, p, hleads, hfault⟩ := exists_leadsTo_of_error ha hb h
  obtain ⟨hs, hp⟩ := foundAt_of_leadsTo hleads
  obtain ⟨path, kind⟩ := m
  cases kind with
  | incompatible expected found =>
      obtain ⟨rfl, rfl, -⟩ := hfault
      exact ⟨hp, hs⟩
  | positionalArity expected found =>
      obtain ⟨t, u, rfl, rfl, hexpected, hfound, hne⟩ := hfault
      exact ⟨t, u, hs, hp, hfound, hexpected, hne⟩
  | tagMismatch expected found =>
      obtain ⟨t, u, rfl, rfl, -, hexpected, hfound, htag⟩ := hfault
      refine ⟨t, u, hs, hp, hfound, hexpected, ?_⟩
      rintro rfl
      exact htag .same
  | missingField f =>
      obtain ⟨t, u, rfl, rfl, -, -, hf, hf'⟩ := hfault
      exact ⟨t, u, hs, hp, hf, hf'⟩
  | extraField f =>
      obtain ⟨t, u, rfl, rfl, -, -, -, ⟨hf, hf'⟩, -⟩ := hfault
      exact ⟨t, u, hs, hp, hf, hf'⟩

/-! ### How an equivalence check fails -/

section checks

variable {f : Ty → Ty → TypeCheck} {m : TypeMismatch}

/-- A mismatch in positional members belongs to one of them. -/
theorem exists_of_checkPositional_eq_error {i : Nat} {as bs : List Ty}
    (h : checkPositional i (as.map f) bs = .error m) :
    ∃ j a b inner, as[j]? = some a ∧ bs[j]? = some b ∧ f a b = .error inner ∧
      m = inner.within (.index (i + j)) := by
  induction as generalizing i bs with
  | nil => cases h
  | cons a as ih =>
      cases bs with
      | nil => cases h
      | cons b bs =>
          rw [List.map_cons, checkPositional, bind_eq_error_iff, checkMember_eq_error_iff] at h
          rcases h with ⟨inner, herror, rfl⟩ | ⟨-, h⟩
          · exact ⟨0, a, b, inner, rfl, rfl, herror, rfl⟩
          · obtain ⟨j, x, y, inner, hx, hy, herror, rfl⟩ := ih h
            refine ⟨j + 1, x, y, inner, hx, hy, herror, ?_⟩
            rw [Nat.add_assoc, Nat.add_comm 1 j]

/-- A mismatch in the fields of both sides belongs to one of them. -/
theorem exists_of_checkPresentFields_eq_error {t : Tuple Ty} {expected : List (Symbol × Ty)}
    (h : checkPresentFields (t.map f) expected = .error m) :
    ∃ x ∈ expected, ∃ a inner, t.field? x.1 = some a ∧ f a x.2 = .error inner ∧
      m = inner.within (.field x.1) := by
  induction expected with
  | nil => cases h
  | cons x expected ih =>
      obtain ⟨g, b⟩ := x
      have hcases : (∃ a, t.field? g = some a ∧ checkMember (.field g) (f a b) = .error m) ∨
          checkPresentFields (t.map f) expected = .error m := by
        rw [checkPresentFields, Tuple.field?_map] at h
        cases hg : t.field? g with
        | none =>
            rw [hg] at h
            exact .inr h
        | some a =>
            rw [hg] at h
            exact (bind_eq_error_iff.mp h).imp (fun hmember => ⟨a, rfl, hmember⟩) And.right
      rcases hcases with ⟨a, ha, hmember⟩ | hlater
      · obtain ⟨inner, herror, rfl⟩ := checkMember_eq_error_iff.mp hmember
        exact ⟨(g, b), List.mem_cons_self, a, inner, ha, herror, rfl⟩
      · obtain ⟨x, hx, hfault⟩ := ih hlater
        exact ⟨x, List.mem_cons_of_mem _ hx, hfault⟩

/-- A comparison of tuple types fails because of their counts, tags or fields, or at a member. -/
theorem checkSameTuple_eq_error_cases {t : Tuple (Ty → TypeCheck)} {u : Tuple Ty}
    (h : checkSameTuple t u = .error m) :
    (t.arity ≠ u.arity ∧ m = .ofKind (.positionalArity u.arity t.arity)) ∨
    (t.tag ≠ u.tag ∧ m = .ofKind (.tagMismatch u.tag t.tag)) ∨
    (∃ g, extraField? u.layout t.layout = some g ∧ m = .ofKind (.missingField g)) ∨
    (∃ g, extraField? t.layout u.layout = some g ∧ m = .ofKind (.extraField g)) ∨
    checkPositional 0 t.positional u.positional = .error m ∨
    checkPresentFields t u.namedAscending = .error m := by
  unfold checkSameTuple at h
  dsimp only at h
  rw [bind_eq_error_iff, checkArity_eq_error_iff, require_eq_error_iff] at h
  rcases h with harity | ⟨-, htag | ⟨-, h⟩⟩
  · exact .inl harity
  · exact .inr (.inl htag)
  cases hmissing : extraField? u.layout t.layout with
  | some g =>
      rw [hmissing] at h
      obtain rfl : TypeMismatch.ofKind (.missingField g) = m := Except.error.inj h
      exact .inr (.inr (.inl ⟨g, rfl, rfl⟩))
  | none =>
      cases hextra : extraField? t.layout u.layout with
      | some g =>
          rw [hmissing, hextra] at h
          obtain rfl : TypeMismatch.ofKind (.extraField g) = m := Except.error.inj h
          exact .inr (.inr (.inr (.inl ⟨g, rfl, rfl⟩)))
      | none =>
          rw [hmissing, hextra] at h
          replace h : (checkPositional 0 t.positional u.positional >>= fun _ =>
              checkPresentFields t u.namedAscending) = .error m := h
          rcases bind_eq_error_iff.mp h with hpositional | ⟨-, hfields⟩
          · exact .inr (.inr (.inr (.inr (.inl hpositional))))
          · exact .inr (.inr (.inr (.inr (.inr hfields))))

/-- A comparison of tuple types fails with a fault of the tuples themselves, the right one being the
expected side, or with the mismatch of two members. -/
theorem oriented_or_member_of_checkEquivalent {t u : Tuple Ty} (ht : t.WellFormed)
    (hu : u.WellFormed) (h : checkEquivalent policy (.tuple t) (.tuple u) = .error m) :
    (m.path = [] ∧ m.Oriented (.tuple t) (.tuple u)) ∨
      ∃ key a b inner, t.getKey key = .ok a ∧ u.getKey key = .ok b ∧
        checkEquivalent policy a b = .error inner ∧ m = inner.within key := by
  rw [checkEquivalent_tuple] at h
  rcases checkSameTuple_eq_error_cases h with ⟨hne, rfl⟩ | ⟨hne, rfl⟩ | ⟨g, hg, rfl⟩ |
    ⟨g, hg, rfl⟩ | hpositional | hfields
  · exact .inl ⟨rfl, t, u, .here _, .here _, rfl, rfl, hne⟩
  · exact .inl ⟨rfl, t, u, .here _, .here _, rfl, rfl, hne⟩
  · exact .inl ⟨rfl, t, u, .here _, .here _, (extraField?_eq_some_iff.mp hg).1⟩
  · exact .inl ⟨rfl, t, u, .here _, .here _, (extraField?_eq_some_iff.mp hg).1⟩
  · obtain ⟨i, a, b, inner, ha, hb, herror, rfl⟩ := exists_of_checkPositional_eq_error hpositional
    refine .inr ⟨.index (0 + i), a, b, inner, ?_, ?_, herror, rfl⟩
    · rwa [Nat.zero_add, ht.getKey_index_eq_ok_iff]
    · rwa [Nat.zero_add, hu.getKey_index_eq_ok_iff]
  · obtain ⟨⟨g, b⟩, hx, a, inner, ha, herror, rfl⟩ :=
      exists_of_checkPresentFields_eq_error hfields
    refine .inr ⟨.field g, a, b, inner, ?_, ?_, herror, rfl⟩
    · exact Tuple.getKey_field_eq_ok_iff.mpr ha
    · exact Tuple.getKey_field_eq_ok_iff.mpr (hu.mem_namedAscending_iff.mp hx)

end checks

/-! ### The expected side -/

/-- A pair that is no pair of tuple types fails in the first direction of mutual subtyping, or
passes it and fails in the second one. -/
theorem checkSubtype_of_not_tuple {a b : Ty} (hnone : a.tuple? = none ∨ b.tuple? = none)
    {m : TypeMismatch} (h : checkEquivalent policy a b = .error m) :
    checkSubtype policy a b = .error m ∨
      isSubtype policy a b = true ∧ checkSubtype policy b a = .error m := by
  have hau : a.isUnknown = false := by
    rw [← Bool.not_eq_true, isUnknown_iff]
    rintro rfl
    cases h
  have hbu : b.isUnknown = false := by
    rw [← Bool.not_eq_true, isUnknown_iff]
    rintro rfl
    cases a <;> cases h
  rwa [checkEquivalent_eq_checkMutualSubtype hau hbu hnone, checkMutualSubtype,
    bind_eq_error_iff] at h

/-- Of a pair that is no pair of tuple types, the right one is the expected side of the first
direction and the left one that of the second. -/
theorem expected_side_of_not_tuple {a b : Ty} (ha : a.WellFormed) (hb : b.WellFormed)
    (hnone : a.tuple? = none ∨ b.tuple? = none) {m : TypeMismatch}
    (h : checkEquivalent policy a b = .error m) :
    (¬PassesFirst policy a b m.path → m.Oriented a b) ∧
      (PassesFirst policy a b m.path → m.Oriented b a) := by
  rw [passesFirst_iff_of_not_tuple hnone]
  rcases checkSubtype_of_not_tuple hnone h with hfirst | ⟨hpasses, hsecond⟩
  · refine ⟨fun _ => oriented_of_checkSubtype ha hb hfirst, fun hpasses => ?_⟩
    cases hpasses.symm.trans (isSubtype_of_error hfirst)
  · exact ⟨fun hfails => absurd hpasses hfails, fun _ => oriented_of_checkSubtype hb ha hsecond⟩

/-- The right type of an equivalence is the expected side of its mismatch, unless the path leads to
a pair that is checked in the second direction: there the left type is. -/
theorem expected_side_of_checkEquivalent (policy : TuplePolicy) {a b : Ty} (ha : a.WellFormed)
    (hb : b.WellFormed) {m : TypeMismatch} (h : checkEquivalent policy a b = .error m) :
    (¬PassesFirst policy a b m.path → m.Oriented a b) ∧
      (PassesFirst policy a b m.path → m.Oriented b a) := by
  induction ha generalizing b m with
  | unknown => cases h
  | void => exact expected_side_of_not_tuple .void hb (.inl rfl) h
  | scalar s => exact expected_side_of_not_tuple (.scalar s) hb (.inl rfl) h
  | union each _ => exact expected_side_of_not_tuple (.union each) hb (.inl rfl) h
  | tuple shape members ih =>
      have ha := WellFormed.tuple shape members
      cases hb with
      | unknown => cases h
      | void => exact expected_side_of_not_tuple ha .void (.inr rfl) h
      | scalar s => exact expected_side_of_not_tuple ha (.scalar s) (.inr rfl) h
      | union each => exact expected_side_of_not_tuple ha (.union each) (.inr rfl) h
      | tuple shape' members' =>
          rcases oriented_or_member_of_checkEquivalent shape shape' h with
            ⟨hpath, horiented⟩ | ⟨key, x, y, inner, hx, hy, herror, rfl⟩
          · refine ⟨fun _ => horiented, fun hpasses => ?_⟩
            rw [hpath] at hpasses
            exact absurd hpasses not_passesFirst_nil
          · have hinner := ih x (Tuple.mem_members_of_getKey shape hx)
              (members' y (Tuple.mem_members_of_getKey shape' hy)) herror
            show (¬PassesFirst policy _ _ (key :: inner.path) → _) ∧
              (PassesFirst policy _ _ (key :: inner.path) → _)
            rw [passesFirst_cons_iff hx hy]
            exact ⟨fun hfails => oriented_within hx hy (hinner.1 hfails),
              fun hpasses => oriented_within hy hx (hinner.2 hpasses)⟩

/-- Both sides occur as the expected one: the right type where its member has a field that the left
one lacks, and the left type where its member is `Void`. -/
theorem expected_side_of_checkEquivalent_of_members :
    let single (a : Ty) := tuple ⟨⟨0, 0, .ofPositional 1⟩, [a], []⟩
    let pair := tuple ⟨⟨0, 1, .ascendingPair 0⟩, [], [scalar .int, scalar .str]⟩
    let empty := tuple ⟨⟨0, 2, .ofPositional 0⟩, [], []⟩
    let missing : TypeMismatch := ⟨[.index 0], .missingField ⟨1⟩⟩
    let exchanged : TypeMismatch := ⟨[.index 0], .incompatible void (scalar .int)⟩
    (checkEquivalent {} (single empty) (single pair) = .error missing ∧
        missing.Oriented (single empty) (single pair)) ∧
      checkEquivalent {} (single void) (single (scalar .int)) = .error exchanged ∧
        exchanged.Oriented (single (scalar .int)) (single void) := by
  intro single pair empty missing exchanged
  have hwf : (single empty).WellFormed ∧ (single pair).WellFormed ∧ (single void).WellFormed ∧
      (single (scalar .int)).WellFormed := by
    simp [single, pair, empty, Tuple.members, Tuple.wellFormed_iff, Tuple.layout,
      Layout.ascendingPair, Layout.ofPositional]
  obtain ⟨hempty, hpair, hvoid, hint⟩ := hwf
  have hmissing : checkEquivalent {} (single empty) (single pair) = .error missing := by
    with_unfolding_all rfl
  have hexchanged : checkEquivalent {} (single void) (single (scalar .int)) = .error exchanged := by
    with_unfolding_all rfl
  have hfails : ¬PassesFirst {} (single empty) (single pair) missing.path := by
    rw [passesFirst_cons_iff (a := empty) (b := pair) rfl rfl]
    exact not_passesFirst_nil
  have hpasses : PassesFirst {} (single void) (single (scalar .int)) exchanged.path :=
    .member rfl rfl (.here (.inl rfl) rfl)
  exact ⟨⟨hmissing, (expected_side_of_checkEquivalent {} hempty hpair hmissing).1 hfails⟩,
    hexchanged, (expected_side_of_checkEquivalent {} hvoid hint hexchanged).2 hpasses⟩

/-- The right type is not always the expected side: `Void` as a member of the left type is reported
as expected where the right one has a scalar. -/
theorem not_oriented_of_void_member :
    let single (a : Ty) := tuple ⟨⟨0, 0, .ofPositional 1⟩, [a], []⟩
    ∃ m, checkEquivalent {} (single void) (single (scalar .int)) = .error m ∧
      ¬m.Oriented (single void) (single (scalar .int)) := by
  intro single
  refine ⟨⟨[.index 0], .incompatible void (scalar .int)⟩, by with_unfolding_all rfl, ?_⟩
  rintro ⟨hexpected, -⟩
  cases hexpected with
  | member get onward =>
      obtain rfl : scalar .int = _ := Except.ok.inj get
      cases onward

end Ty

end TaggedTuple
