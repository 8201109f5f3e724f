import TaggedTuple.Proofs.Ty.Rules

/-!
# A mismatch points at the first fault

`MismatchKind.FaultOf` says what a kind of mismatch claims about a pair of types, and
`Ty.LeadsTo` where a path leads from a pair of types: a member address takes the members of two
tuple types, and a union on the left is entered at its first member that fails. On its way the path
passes only members before which all others are accepted, in the order of `TupleKey.Before`.

The subtype check reports exactly the mismatches whose path leads to a pair of types with the fault
(`checkSubtype_reports_first_fault`). The proof has one lemma for each function of the check that
says when it fails, and how. The way out is by induction on the left type, the way back along the
path.
-/

set_option linter.unusedSectionVars false

namespace TaggedTuple

/-- The order in which members are checked: positional ones by index, then fields in ascending
order. -/
def TupleKey.Before : TupleKey → TupleKey → Prop
  | .index i, .index j => i < j
  | .index _, .field _ => True
  | .field _, .index _ => False
  | .field f, .field g => f < g

namespace Ty

variable {policy : TuplePolicy}

/-! ### What a mismatch claims -/

/-- Tuple types whose members get compared. -/
structure Comparable (policy : TuplePolicy) (t u : Tuple Ty) : Prop where
  arity : t.arity = u.arity
  tag : policy.tags.Allows t.tag u.tag

/-- The member of `u` at an address, if there is one, has a partner in `t` that may stand for it. -/
def Accepted (policy : TuplePolicy) (t u : Tuple Ty) (key : TupleKey) : Prop :=
  ∀ b, u.getKey key = .ok b → ∃ a, t.getKey key = .ok a ∧ isSubtype policy a b = true

/-- All members that are checked before the one at an address are accepted. -/
def AcceptedBefore (policy : TuplePolicy) (t u : Tuple Ty) (key : TupleKey) : Prop :=
  ∀ earlier : TupleKey, earlier.Before key → Accepted policy t u earlier

end Ty

/-- What a kind of mismatch claims about a pair of types, and that nothing is wrong with them that
is checked before. -/
def MismatchKind.FaultOf (policy : TuplePolicy) (sub sup : Ty) : MismatchKind → Prop
  | .incompatible expected found =>
    expected = sup ∧ found = sub ∧ Ty.isSubtype policy sub sup = false ∧
      (sub.tuple? = none ∨ sup.tuple? = none)
  | .positionalArity expected found =>
    ∃ t u, sub = .tuple t ∧ sup = .tuple u ∧ expected = u.arity ∧ found = t.arity ∧
      found ≠ expected
  | .tagMismatch expected found =>
    ∃ t u, sub = .tuple t ∧ sup = .tuple u ∧ t.arity = u.arity ∧ expected = u.tag ∧
      found = t.tag ∧ ¬policy.tags.Allows found expected
  | .missingField f =>
    ∃ t u, sub = .tuple t ∧ sup = .tuple u ∧ Ty.Comparable policy t u ∧
      Ty.AcceptedBefore policy t u (.field f) ∧ f ∈ u.layout.fields ∧ f ∉ t.layout.fields
  | .extraField f =>
    ∃ t u, sub = .tuple t ∧ sup = .tuple u ∧ Ty.Comparable policy t u ∧
      (∀ key, Ty.Accepted policy t u key) ∧ policy.width = .exact ∧
      (f ∈ t.layout.fields ∧ f ∉ u.layout.fields) ∧
      ∀ g ∈ t.layout.fields, g < f → g ∈ u.layout.fields

/-! ### The first element without a property -/

/-- `y` stands in the list at position `i`, and all elements before it have the property `P`. -/
def FirstAt {β : Type} (P : β → Prop) (xs : List β) (i : Nat) (y : β) : Prop :=
  xs[i]? = some y ∧ ∀ j < i, ∀ x, xs[j]? = some x → P x

section firstAt

variable {β : Type} {P : β → Prop} {x y : β} {xs : List β} {i : Nat}

/-- The empty list has no first element. -/
theorem firstAt_nil : ¬FirstAt P [] i y := by
  simp [FirstAt]

/-- The head is first without condition. -/
theorem firstAt_cons_zero : FirstAt P (x :: xs) 0 y ↔ x = y := by
  simp [FirstAt]

/-- Behind the head the first element is that of the tail, if the head has the property. -/
theorem firstAt_cons_succ : FirstAt P (x :: xs) (i + 1) y ↔ P x ∧ FirstAt P xs i y := by
  constructor
  · rintro ⟨hy, hbefore⟩
    refine ⟨hbefore 0 (Nat.succ_pos i) x rfl, hy, fun j hj z hz => ?_⟩
    exact hbefore (j + 1) (Nat.succ_lt_succ hj) z hz
  · rintro ⟨hx, hy, hbefore⟩
    refine ⟨hy, fun j hj z hz => ?_⟩
    cases j with
    | zero =>
        obtain rfl : x = z := by simpa using hz
        exact hx
    | succ j => exact hbefore j (Nat.lt_of_succ_lt_succ hj) z hz

/-- Either the head is the first one, or it has the property and the tail goes on. -/
theorem exists_firstAt_cons_iff {Q : Nat → β → Prop} :
    (∃ i y, FirstAt P (x :: xs) i y ∧ Q i y) ↔
      Q 0 x ∨ P x ∧ ∃ i y, FirstAt P xs i y ∧ Q (i + 1) y := by
  constructor
  · rintro ⟨i, y, hfirst, hQ⟩
    cases i with
    | zero =>
        obtain rfl := firstAt_cons_zero.mp hfirst
        exact .inl hQ
    | succ i =>
        obtain ⟨hx, hfirst⟩ := firstAt_cons_succ.mp hfirst
        exact .inr ⟨hx, i, y, hfirst, hQ⟩
  · rintro (hQ | ⟨hx, i, y, hfirst, hQ⟩)
    · exact ⟨0, x, firstAt_cons_zero.mpr rfl, hQ⟩
    · exact ⟨i + 1, y, firstAt_cons_succ.mpr ⟨hx, hfirst⟩, hQ⟩

/-- In ascending order the elements before `y` are those below it. -/
theorem exists_firstAt_iff_of_ascending {key : β → Symbol}
    (h : xs.Pairwise fun a b => key a < key b) :
    (∃ i, FirstAt P xs i y) ↔ y ∈ xs ∧ ∀ x ∈ xs, key x < key y → P x := by
  have hlt : ∀ (i j : Nat) a b, xs[i]? = some a → xs[j]? = some b → i < j → key a < key b := by
    intro i j a b ha hb hij
    obtain ⟨hi, rfl⟩ := List.getElem?_eq_some_iff.mp ha
    obtain ⟨hj, rfl⟩ := List.getElem?_eq_some_iff.mp hb
    exact List.pairwise_iff_getElem.mp h i j hi hj hij
  constructor
  · rintro ⟨i, hy, hbefore⟩
    refine ⟨List.mem_of_getElem? hy, fun x hx hxy => ?_⟩
    obtain ⟨j, hj⟩ := List.mem_iff_getElem?.mp hx
    refine hbefore j ?_ x hj
    by_contra hle
    rcases Nat.lt_or_eq_of_le (Nat.le_of_not_lt hle) with hij | rfl
    · exact absurd hxy (asymm (hlt i j y x hy hj hij))
    · obtain rfl : y = x := Option.some.inj (hy.symm.trans hj)
      exact absurd hxy (irrefl_of (· < ·) (key y))
  · rintro ⟨hy, hbelow⟩
    obtain ⟨i, hi⟩ := List.mem_iff_getElem?.mp hy
    refine ⟨i, hi, fun j hj x hx => ?_⟩
    exact hbelow x (List.mem_of_getElem? hx) (hlt j i x y hx hi hj)

/-- A search finds the first element that passes its test. -/
theorem find?_eq_some_iff_firstAt {p : β → Bool} :
    xs.find? p = some y ↔ p y = true ∧ ∃ i, FirstAt (fun x => p x = false) xs i y := by
  rw [List.find?_eq_some_iff_getElem]
  refine and_congr_right fun _ => exists_congr fun i => ?_
  constructor
  · rintro ⟨hi, rfl, hbefore⟩
    refine ⟨List.getElem?_eq_getElem hi, fun j hj x hx => ?_⟩
    obtain ⟨hlt, rfl⟩ := List.getElem?_eq_some_iff.mp hx
    simpa using hbefore j hj
  · rintro ⟨hy, hbefore⟩
    obtain ⟨hi, hget⟩ := List.getElem?_eq_some_iff.mp hy
    refine ⟨hi, hget, fun j hj => ?_⟩
    simpa using hbefore j hj _ (List.getElem?_eq_getElem (by omega))

end firstAt

namespace Ty

/-- The path leads from one pair of types to another one. -/
inductive LeadsTo (policy : TuplePolicy) : Ty → Ty → List TupleKey → Ty → Ty → Prop
  /-- A union is no place to stop at. -/
  | here {sub sup : Ty} (stop : sub.members? = none) : LeadsTo policy sub sup [] sub sup
  /-- A union on the left is entered at its first member that fails. -/
  | union {members : List Ty} {i : Nat} {a sup s p : Ty} {path : List TupleKey}
    (first : FirstAt (fun d => isSubtype policy d sup = true) members i a)
    (fails : isSubtype policy a sup = false) (onward : LeadsTo policy a sup path s p) :
    LeadsTo policy (.union members) sup path s p
  /-- A step of the path takes the members at its address. -/
  | member {t u : Tuple Ty} {key : TupleKey} {a b s p : Ty} {path : List TupleKey}
    (comparable : Comparable policy t u) (before : AcceptedBefore policy t u key)
    (left : t.getKey key = .ok a) (right : u.getKey key = .ok b)
    (onward : LeadsTo policy a b path s p) : LeadsTo policy (.tuple t) (.tuple u) (key :: path) s p

/-! ### How a sequence of checks fails -/

section checks

variable {check rest outcome : TypeCheck} {m : TypeMismatch}

/-- Two checks in a row fail as the first one, or as the second one once the first passes. -/
theorem bind_eq_error_iff :
    (check >>= fun _ => rest) = .error m ↔
      check = .error m ∨ check.isOk = true ∧ rest = .error m := by
  cases check <;> simp [bind, Except.bind, Except.isOk, Except.toBool]

/-- A condition among checks fails with its own mismatch. -/
theorem require_eq_error_iff {c : Prop} [Decidable c] {kind : MismatchKind} :
    (if c then (do Except.ok (); rest) else (do mismatch kind; rest) : TypeCheck) = .error m ↔
      (¬c ∧ m = .ofKind kind) ∨ (c ∧ rest = .error m) := by
  by_cases hc : c
  · simp [hc, bind, Except.bind]
  · simp [hc, bind, Except.bind, mismatch, eq_comm]

/-- The check of a member fails as the member does, one step further down. -/
theorem checkMember_eq_error_iff {key : TupleKey} :
    checkMember key outcome = .error m ↔
      ∃ inner, outcome = .error inner ∧ m = inner.within key := by
  cases outcome <;> simp [checkMember, Except.mapError, eq_comm]

/-- A check does not pass when it reports a mismatch. -/
theorem isOk_eq_false_iff {outcome : TypeCheck} :
    outcome.isOk = false ↔ ∃ m, outcome = .error m := by
  cases outcome <;> simp [Except.isOk, Except.toBool]

/-- A check that reports a mismatch denies subtyping. -/
theorem isSubtype_of_error {a b : Ty} (h : checkSubtype policy a b = .error m) :
    isSubtype policy a b = false := by
  apply isOk_eq_false_iff.mpr
  exact ⟨m, h⟩

/-- How the check of the arities fails. -/
theorem checkArity_eq_error_iff {α β : Type} {t : Tuple α} {u : Tuple β} :
    checkArity t u = .error m ↔
      t.arity ≠ u.arity ∧ m = .ofKind (.positionalArity u.arity t.arity) := by
  by_cases h : t.arity = u.arity
  · simp [checkArity, h]
  · simp [checkArity, h, mismatch, eq_comm]

/-- Positional members fail at the first pair that fails. -/
theorem checkPositional_eq_error_iff {i : Nat} {as bs : List Ty} :
    checkPositional i (as.map (checkSubtype policy)) bs = .error m ↔
      ∃ j x, FirstAt (fun x => isSubtype policy x.1 x.2 = true) (as.zip bs) j x ∧
        ∃ inner, checkSubtype policy x.1 x.2 = .error inner ∧
          m = inner.within (.index (i + j)) := by
  induction as generalizing i bs with
  | nil => simp [checkPositional, firstAt_nil]
  | cons a as ih =>
      cases bs with
      | nil => simp [checkPositional, firstAt_nil]
      | cons b bs =>
          rw [List.map_cons, checkPositional, bind_eq_error_iff, isOk_checkMember,
            checkMember_eq_error_iff, ih, List.zip_cons_cons, exists_firstAt_cons_iff]
          simp only [Nat.add_zero, Nat.add_right_comm i 1, ← Nat.add_assoc]
          rfl

/-- Expected fields fail at the first one that is absent or whose member fails. -/
theorem checkFields_eq_error_iff {t : Tuple Ty} {expected : List (Symbol × Ty)} :
    checkFields (t.map (checkSubtype policy)) expected = .error m ↔
      ∃ i x, FirstAt (fun x => ∃ a, t.field? x.1 = some a ∧ isSubtype policy a x.2 = true)
          expected i x ∧
        (t.field? x.1 = none ∧ m = .ofKind (.missingField x.1) ∨
          ∃ a inner, t.field? x.1 = some a ∧ checkSubtype policy a x.2 = .error inner ∧
            m = inner.within (.field x.1)) := by
  induction expected with
  | nil => simp [checkFields, firstAt_nil]
  | cons x expected ih =>
      obtain ⟨f, b⟩ := x
      rw [exists_firstAt_cons_iff, ← ih, checkFields, Tuple.field?_map]
      cases hf : t.field? f with
      | none => simp [bind, Except.bind, mismatch, @eq_comm TypeMismatch m]
      | some a =>
          simp [bind_eq_error_iff, isOk_checkMember, checkMember_eq_error_iff]
          rfl

/-- The types of a list fail at the first one that fails. -/
theorem checkEachSubtype_eq_error_iff {members : List Ty} {sup : Ty} :
    checkEachSubtype policy members sup = .error m ↔
      ∃ i a, FirstAt (fun a => isSubtype policy a sup = true) members i a ∧
        checkSubtype policy a sup = .error m := by
  induction members with
  | nil => simp [checkEachSubtype, firstAt_nil]
  | cons a members ih =>
      rw [checkEachSubtype, bind_eq_error_iff, ih, exists_firstAt_cons_iff]
      rfl

/-- How the check of the width fails. -/
theorem checkWidth_eq_error_iff {width : WidthPolicy} {l k : Layout} :
    checkWidth width l k = .error m ↔
      width = .exact ∧ ∃ f, extraField? l k = some f ∧ m = .ofKind (.extraField f) := by
  cases width with
  | extensible => simp [checkWidth]
  | exact =>
      unfold checkWidth
      cases extraField? l k <;> simp [mismatch, eq_comm]

/-- The first field, in ascending order, that the other layout lacks. -/
theorem extraField?_eq_some_iff {l k : Layout} {f : Symbol} :
    extraField? l k = some f ↔
      (f ∈ l.fields ∧ f ∉ k.fields) ∧ ∀ g ∈ l.fields, g < f → g ∈ k.fields := by
  have hascending : (sortByKey id l.fields).Pairwise fun a b => id a < id b :=
    sortByKey_ascending (by simpa using l.fields_nodup)
  unfold extraField?
  rw [Layout.symbols_index, find?_eq_some_iff_firstAt,
    exists_firstAt_iff_of_ascending hascending]
  simp only [mem_sortByKey, Bool.not_eq_true', ← Bool.not_eq_true, Layout.hasField_iff, not_not,
    id]
  rw [and_assoc, and_left_comm]

end checks

/-! ### How a comparison of tuple types fails -/

section tuple

variable {t u : Tuple Ty} {m : TypeMismatch}

/-- Only positional members are checked before a positional member. -/
theorem acceptedBefore_index_iff {i : Nat} :
    AcceptedBefore policy t u (.index i) ↔ ∀ j < i, Accepted policy t u (.index j) := by
  constructor
  · intro h j hj
    exact h (.index j) hj
  · intro h earlier hbefore
    cases earlier with
    | index j => exact h j hbefore
    | field g => exact hbefore.elim

/-- All positional members and the smaller fields are checked before a field. -/
theorem acceptedBefore_field_iff {f : Symbol} :
    AcceptedBefore policy t u (.field f) ↔
      (∀ i, Accepted policy t u (.index i)) ∧ ∀ g, g < f → Accepted policy t u (.field g) := by
  constructor
  · intro h
    exact ⟨fun i => h (.index i) trivial, fun g hg => h (.field g) hg⟩
  · rintro ⟨hindex, hfield⟩ earlier hbefore
    cases earlier with
    | index i => exact hindex i
    | field g => exact hfield g hbefore

/-- What it is for a field to be accepted. -/
theorem accepted_field_iff {f : Symbol} :
    Accepted policy t u (.field f) ↔
      ∀ b, u.field? f = some b → ∃ a, t.field? f = some a ∧ isSubtype policy a b = true := by
  simp only [Accepted, Tuple.getKey_field_eq_ok_iff]

variable (ht : t.WellFormed) (hu : u.WellFormed)
include ht hu

/-- What it is for a positional member to be accepted. -/
theorem accepted_index_iff {i : Nat} :
    Accepted policy t u (.index i) ↔
      ∀ b, u.positional[i]? = some b →
        ∃ a, t.positional[i]? = some a ∧ isSubtype policy a b = true := by
  simp only [Accepted, Tuple.getKey_index_eq_ok_iff, ht.at?_eq, hu.at?_eq]

section positional

variable (harity : t.arity = u.arity)
include harity

/-- Tuple types whose members get compared have equally many positional ones. -/
theorem length_positional_eq : t.positional.length = u.positional.length := by
  rw [ht.positional_length, hu.positional_length]
  exact harity

/-- A member is accepted exactly when the pair at its index passes. -/
theorem accepted_index_iff_zip {i : Nat} :
    Accepted policy t u (.index i) ↔
      ∀ x, (t.positional.zip u.positional)[i]? = some x → isSubtype policy x.1 x.2 = true := by
  rw [accepted_index_iff ht hu]
  constructor
  · rintro h ⟨a, b⟩ hx
    obtain ⟨ha, hb⟩ := List.getElem?_zip_eq_some.mp hx
    obtain ⟨a', ha', hab⟩ := h b hb
    obtain rfl : a = a' := Option.some.inj (ha.symm.trans ha')
    exact hab
  · intro h b hb
    have hi : i < t.positional.length := by
      rw [length_positional_eq ht hu harity]
      exact (List.getElem?_eq_some_iff.mp hb).1
    refine ⟨t.positional[i], List.getElem?_eq_getElem hi, ?_⟩
    exact h (t.positional[i], b) (List.getElem?_zip_eq_some.mpr ⟨List.getElem?_eq_getElem hi, hb⟩)

/-- The check of positional members passes when all of them are accepted. -/
theorem isOk_checkPositional_iff_accepted :
    (checkPositional 0 (t.positional.map (checkSubtype policy)) u.positional).isOk = true ↔
      ∀ i, Accepted policy t u (.index i) := by
  simp only [accepted_index_iff_zip ht hu harity]
  rw [isOk_checkPositional_iff (by simpa using length_positional_eq ht hu harity),
    List.forall₂_map_left_iff, List.forall₂_iff_zip]
  constructor
  · rintro ⟨-, h⟩ i ⟨a, b⟩ hx
    exact h (List.mem_of_getElem? hx)
  · intro h
    refine ⟨length_positional_eq ht hu harity, fun hmem => ?_⟩
    obtain ⟨i, hi⟩ := List.mem_iff_getElem?.mp hmem
    exact h i _ hi

/-- Positional members fail at the first one that is not accepted. -/
theorem checkPositional_eq_error_iff_member :
    checkPositional 0 (t.positional.map (checkSubtype policy)) u.positional = .error m ↔
      ∃ i a b inner, AcceptedBefore policy t u (.index i) ∧ t.getKey (.index i) = .ok a ∧
        u.getKey (.index i) = .ok b ∧ checkSubtype policy a b = .error inner ∧
        m = inner.within (.index i) := by
  simp only [checkPositional_eq_error_iff, FirstAt, acceptedBefore_index_iff,
    accepted_index_iff_zip ht hu harity, Tuple.getKey_index_eq_ok_iff, ht.at?_eq, hu.at?_eq,
    Prod.exists, List.getElem?_zip_eq_some, Nat.zero_add]
  constructor
  · rintro ⟨i, a, b, ⟨⟨ha, hb⟩, hbefore⟩, inner, herror, rfl⟩
    exact ⟨i, a, b, inner, hbefore, ha, hb, herror, rfl⟩
  · rintro ⟨i, a, b, inner, hbefore, ha, hb, herror, rfl⟩
    exact ⟨i, a, b, ⟨⟨ha, hb⟩, hbefore⟩, inner, herror, rfl⟩

end positional

omit ht in
/-- The check of expected fields passes when all of them are accepted. -/
theorem isOk_checkFields_iff_accepted :
    (checkFields (t.map (checkSubtype policy)) u.namedAscending).isOk = true ↔
      ∀ f, Accepted policy t u (.field f) := by
  simp only [isOk_checkFields_iff, accepted_field_iff, Tuple.field?_map, Option.map_eq_some_iff]
  constructor
  · intro h f b hb
    obtain ⟨-, ⟨a, ha, rfl⟩, hab⟩ := h (f, b) (hu.mem_namedAscending_iff.mpr hb)
    exact ⟨a, ha, hab⟩
  · rintro h ⟨f, b⟩ hmem
    obtain ⟨a, ha, hab⟩ := h f b (hu.mem_namedAscending_iff.mp hmem)
    exact ⟨_, ⟨a, ha, rfl⟩, hab⟩

/-- Fields fail at the first one, in ascending order, that is absent or not accepted. -/
theorem checkFields_eq_error_iff_member (hindex : ∀ i, Accepted policy t u (.index i)) :
    checkFields (t.map (checkSubtype policy)) u.namedAscending = .error m ↔
      ∃ f, AcceptedBefore policy t u (.field f) ∧
        ((f ∈ u.layout.fields ∧ f ∉ t.layout.fields ∧ m = .ofKind (.missingField f)) ∨
          ∃ a b inner, t.getKey (.field f) = .ok a ∧ u.getKey (.field f) = .ok b ∧
            checkSubtype policy a b = .error inner ∧ m = inner.within (.field f)) := by
  rw [checkFields_eq_error_iff, exists_comm]
  simp only [exists_and_right,
    exists_firstAt_iff_of_ascending u.namedAscending_ascending]
  constructor
  · rintro ⟨⟨f, b⟩, ⟨hmem, hbelow⟩, hfault⟩
    have hb : u.field? f = some b := hu.mem_namedAscending_iff.mp hmem
    refine ⟨f, acceptedBefore_field_iff.mpr ⟨hindex, fun g hg => ?_⟩, ?_⟩
    · apply accepted_field_iff.mpr
      intro c hc
      exact hbelow (g, c) (hu.mem_namedAscending_iff.mpr hc) hg
    · rcases hfault with ⟨hnone, rfl⟩ | ⟨a, inner, ha, herror, rfl⟩
      · exact .inl ⟨hu.isSome_field?_iff.mp (by simp [hb]), ht.field?_eq_none_iff.mp hnone, rfl⟩
      · exact .inr ⟨a, b, inner, Tuple.getKey_field_eq_ok_iff.mpr ha,
          Tuple.getKey_field_eq_ok_iff.mpr hb, herror, rfl⟩
  · rintro ⟨f, hbefore, hfault⟩
    have hbelow : ∀ x ∈ u.namedAscending, x.1 < f →
        ∃ a, t.field? x.1 = some a ∧ isSubtype policy a x.2 = true := by
      rintro ⟨g, c⟩ hmem hg
      have hg := (acceptedBefore_field_iff.mp hbefore).2 g hg
      exact accepted_field_iff.mp hg c (hu.mem_namedAscending_iff.mp hmem)
    rcases hfault with ⟨hf, hf', rfl⟩ | ⟨a, b, inner, ha, hb, herror, rfl⟩
    · obtain ⟨b, hb⟩ := Option.isSome_iff_exists.mp (hu.isSome_field?_iff.mpr hf)
      exact ⟨(f, b), ⟨hu.mem_namedAscending_iff.mpr hb, hbelow⟩,
        .inl ⟨ht.field?_eq_none_iff.mpr hf', rfl⟩⟩
    · rw [Tuple.getKey_field_eq_ok_iff] at ha hb
      exact ⟨(f, b), ⟨hu.mem_namedAscending_iff.mpr hb, hbelow⟩,
        .inr ⟨a, inner, ha, herror, rfl⟩⟩

/-- The order of the checks on two tuple types, as conditions on them. -/
theorem checkSubtype_tuple_eq_error_cases :
    checkSubtype policy (.tuple t) (.tuple u) = .error m ↔
      (t.arity ≠ u.arity ∧ m = .ofKind (.positionalArity u.arity t.arity)) ∨
      (t.arity = u.arity ∧
        ((¬policy.tags.Allows t.tag u.tag ∧ m = .ofKind (.tagMismatch u.tag t.tag)) ∨
        (policy.tags.Allows t.tag u.tag ∧
          (checkPositional 0 (t.positional.map (checkSubtype policy)) u.positional = .error m ∨
          ((checkPositional 0 (t.positional.map (checkSubtype policy)) u.positional).isOk = true ∧
            (checkFields (t.map (checkSubtype policy)) u.namedAscending = .error m ∨
            ((∀ f, Accepted policy t u (.field f)) ∧ policy.width = .exact ∧
              ∃ f, extraField? t.layout u.layout = some f ∧ m = .ofKind (.extraField f)))))))) := by
  rw [checkSubtype_tuple]
  unfold checkTuple
  simp only [bind_eq_error_iff, require_eq_error_iff, checkArity_eq_error_iff,
    isOk_checkArity_iff, checkWidth_eq_error_iff, isOk_checkFields_iff_accepted hu]
  simp only [Tuple.arity_map, Tuple.tag_map, Tuple.layout_map, Tuple.positional_map,
    TagPolicy.accepts_iff_allows]

/-- A comparison of tuple types fails because of the tuples themselves, or at the first member that
is not accepted. -/
theorem fault_or_member_of_error (h : checkSubtype policy (.tuple t) (.tuple u) = .error m) :
    (m.path = [] ∧ m.kind.FaultOf policy (.tuple t) (.tuple u)) ∨
      ∃ key a b inner, Comparable policy t u ∧ AcceptedBefore policy t u key ∧
        t.getKey key = .ok a ∧ u.getKey key = .ok b ∧ checkSubtype policy a b = .error inner ∧
        m = inner.within key := by
  rcases (checkSubtype_tuple_eq_error_cases ht hu).mp h with
    ⟨harity, rfl⟩ | ⟨harity, ⟨htag, rfl⟩ | ⟨htag, h⟩⟩
  · exact .inl ⟨rfl, t, u, rfl, rfl, rfl, rfl, harity⟩
  · exact .inl ⟨rfl, t, u, rfl, rfl, harity, rfl, rfl, htag⟩
  rw [checkPositional_eq_error_iff_member ht hu harity,
    isOk_checkPositional_iff_accepted ht hu harity] at h
  rcases h with ⟨i, a, b, inner, hbefore, ha, hb, herror, rfl⟩ | ⟨hindex, h⟩
  · exact .inr ⟨.index i, a, b, inner, ⟨harity, htag⟩, hbefore, ha, hb, herror, rfl⟩
  rw [checkFields_eq_error_iff_member ht hu hindex] at h
  rcases h with ⟨f, hbefore, ⟨hf, hf', rfl⟩ | ⟨a, b, inner, ha, hb, herror, rfl⟩⟩ |
    ⟨hfield, hwidth, f, hextra, rfl⟩
  · exact .inl ⟨rfl, t, u, rfl, rfl, ⟨harity, htag⟩, hbefore, hf, hf'⟩
  · exact .inr ⟨.field f, a, b, inner, ⟨harity, htag⟩, hbefore, ha, hb, herror, rfl⟩
  · obtain ⟨hf, hleast⟩ := extraField?_eq_some_iff.mp hextra
    refine .inl ⟨rfl, t, u, rfl, rfl, ⟨harity, htag⟩, fun key => ?_, hwidth, hf, hleast⟩
    cases key with
    | index i => exact hindex i
    | field f => exact hfield f

/-- A fault of two tuple types themselves is what their comparison reports. -/
theorem error_of_faultOf_tuple {kind : MismatchKind}
    (h : kind.FaultOf policy (.tuple t) (.tuple u)) :
    checkSubtype policy (.tuple t) (.tuple u) = .error (.ofKind kind) := by
  apply (checkSubtype_tuple_eq_error_cases ht hu).mpr
  cases kind with
  | incompatible expected found =>
      obtain ⟨-, -, -, h | h⟩ := h
      · cases h
      · cases h
  | positionalArity expected found =>
      obtain ⟨_, _, ⟨⟩, ⟨⟩, rfl, rfl, hne⟩ := h
      exact .inl ⟨hne, rfl⟩
  | tagMismatch expected found =>
      obtain ⟨_, _, ⟨⟩, ⟨⟩, harity, rfl, rfl, htag⟩ := h
      exact .inr ⟨harity, .inl ⟨htag, rfl⟩⟩
  | missingField f =>
      obtain ⟨_, _, ⟨⟩, ⟨⟩, ⟨harity, htag⟩, hbefore, hf, hf'⟩ := h
      have hindex := (acceptedBefore_field_iff.mp hbefore).1
      refine .inr ⟨harity, .inr ⟨htag, .inr ⟨?_, .inl ?_⟩⟩⟩
      · exact (isOk_checkPositional_iff_accepted ht hu harity).mpr hindex
      · apply (checkFields_eq_error_iff_member ht hu hindex).mpr
        exact ⟨f, hbefore, .inl ⟨hf, hf', rfl⟩⟩
  | extraField f =>
      obtain ⟨_, _, ⟨⟩, ⟨⟩, ⟨harity, htag⟩, hall, hwidth, hf, hleast⟩ := h
      have hextra := extraField?_eq_some_iff.mpr ⟨hf, hleast⟩
      refine .inr ⟨harity, .inr ⟨htag, .inr ⟨?_, .inr ?_⟩⟩⟩
      · exact (isOk_checkPositional_iff_accepted ht hu harity).mpr fun i => hall (.index i)
      · exact ⟨fun g => hall (.field g), hwidth, f, hextra, rfl⟩

/-- The mismatch of the first member that is not accepted is reported within its address. -/
theorem error_of_member {key : TupleKey} {a b : Ty} {inner : TypeMismatch}
    (hcomparable : Comparable policy t u) (hbefore : AcceptedBefore policy t u key)
    (ha : t.getKey key = .ok a) (hb : u.getKey key = .ok b)
    (herror : checkSubtype policy a b = .error inner) :
    checkSubtype policy (.tuple t) (.tuple u) = .error (inner.within key) := by
  have harity := hcomparable.arity
  apply (checkSubtype_tuple_eq_error_cases ht hu).mpr
  refine .inr ⟨harity, .inr ⟨hcomparable.tag, ?_⟩⟩
  cases key with
  | index i =>
      refine .inl ((checkPositional_eq_error_iff_member ht hu harity).mpr ?_)
      exact ⟨i, a, b, inner, hbefore, ha, hb, herror, rfl⟩
  | field f =>
      have hindex := (acceptedBefore_field_iff.mp hbefore).1
      refine .inr ⟨(isOk_checkPositional_iff_accepted ht hu harity).mpr hindex, .inl ?_⟩
      apply (checkFields_eq_error_iff_member ht hu hindex).mpr
      exact ⟨f, hbefore, .inr ⟨a, b, inner, ha, hb, herror, rfl⟩⟩

end tuple

/-! ### How a subtype check fails -/

/-- Apart from unions on the left and pairs of tuple types, only the types themselves can be at
fault. -/
theorem checkSubtype_eq_ok_or_incompatible {a b : Ty} (ha : a.members? = none)
    (hnone : a.tuple? = none ∨ b.tuple? = none) :
    checkSubtype policy a b = .ok () ∨ checkSubtype policy a b = mismatch (.incompatible b a) := by
  have hunion : ∀ (sub : Ty) (check : Ty → TypeCheck) (members : List Ty),
      against sub check (.union members) = .ok () ∨
        against sub check (.union members) = mismatch (.incompatible (.union members) sub) := by
    intro sub check members
    rw [against]
    by_cases hsome : someAgainst sub check members = true
    · simp [hsome]
    · simp [hsome]
  cases a with
  | unknown => exact .inl rfl
  | void => exact .inl rfl
  | union members => cases ha
  | scalar s =>
      cases b with
      | unknown => exact .inl rfl
      | union members => exact hunion _ _ members
      | void => exact .inr rfl
      | tuple u => exact .inr rfl
      | scalar s' =>
          rw [checkSubtype, against]
          by_cases hs : (scalar s').scalar? = some s
          · simp [hs]
          · simp [hs]
  | tuple t =>
      cases b with
      | unknown => exact .inl rfl
      | union members => exact hunion _ _ members
      | void => exact .inr rfl
      | scalar s => exact .inr rfl
      | tuple u => rcases hnone with h | h <;> cases h

/-- Types that are not both tuple types fail as incompatible only. -/
theorem checkSubtype_eq_error_iff_incompatible {a b : Ty} {m : TypeMismatch}
    (ha : a.members? = none) (hnone : a.tuple? = none ∨ b.tuple? = none) :
    checkSubtype policy a b = .error m ↔
      isSubtype policy a b = false ∧ m = .ofKind (.incompatible b a) := by
  have houtcome : checkSubtype policy a b = .ok () ∨
      checkSubtype policy a b = mismatch (.incompatible b a) :=
    checkSubtype_eq_ok_or_incompatible ha hnone
  unfold isSubtype
  rcases houtcome with h | h
  · simp [h, Except.isOk, Except.toBool]
  · simp [h, mismatch, Except.isOk, Except.toBool, eq_comm]

/-- Incompatible types are the fault at the root. -/
theorem exists_faultOf_of_incompatible {a b : Ty} {m : TypeMismatch} (ha : a.members? = none)
    (hnone : a.tuple? = none ∨ b.tuple? = none) (h : checkSubtype policy a b = .error m) :
    ∃ s p, LeadsTo policy a b m.path s p ∧ m.kind.FaultOf policy s p := by
  obtain ⟨hfails, rfl⟩ := (checkSubtype_eq_error_iff_incompatible ha hnone).mp h
  exact ⟨a, b, .here ha, rfl, rfl, hfails, hnone⟩

/-- Members of a well-formed tuple type are well-formed. -/
theorem wellFormed_of_getKey {t : Tuple Ty} (h : (tuple t).WellFormed) {key : TupleKey} {a : Ty}
    (ha : t.getKey key = .ok a) : a.WellFormed := by
  obtain ⟨shape, members⟩ := wellFormed_tuple_iff.mp h
  exact members a (Tuple.mem_members_of_getKey shape ha)

/-- A mismatch leads to a pair of types with its fault. -/
theorem exists_leadsTo_of_error {sub sup : Ty} (hsub : sub.WellFormed) (hsup : sup.WellFormed)
    {m : TypeMismatch} (h : checkSubtype policy sub sup = .error m) :
    ∃ s p, LeadsTo policy sub sup m.path s p ∧ m.kind.FaultOf policy s p := by
  induction hsub generalizing sup m with
  | unknown => cases h
  | void => cases h
  | scalar s => exact exists_faultOf_of_incompatible rfl (.inl rfl) h
  | union each ih =>
      rw [checkSubtype, checkEachSubtype_eq_error_iff] at h
      obtain ⟨i, a, hfirst, ha⟩ := h
      obtain ⟨s, p, hleads, hfault⟩ := ih a (List.mem_of_getElem? hfirst.1) hsup ha
      exact ⟨s, p, .union hfirst (isSubtype_of_error ha) hleads, hfault⟩
  | tuple shape members ih =>
      cases sup with
      | tuple u =>
          have hu := (wellFormed_tuple_iff.mp hsup).1
          rcases fault_or_member_of_error shape hu h with
            ⟨hpath, hfault⟩ | ⟨key, a, b, inner, hcomparable, hbefore, ha, hb, herror, rfl⟩
          · refine ⟨_, _, ?_, hfault⟩
            rw [hpath]
            exact .here rfl
          · have hb' := wellFormed_of_getKey hsup hb
            obtain ⟨s, p, hleads, hfault⟩ := ih a (Tuple.mem_members_of_getKey shape ha) hb' herror
            exact ⟨s, p, .member hcomparable hbefore ha hb hleads, hfault⟩
      | unknown => exact exists_faultOf_of_incompatible rfl (.inr rfl) h
      | void => exact exists_faultOf_of_incompatible rfl (.inr rfl) h
      | scalar s => exact exists_faultOf_of_incompatible rfl (.inr rfl) h
      | union others => exact exists_faultOf_of_incompatible rfl (.inr rfl) h

/-- Other faults than incompatible types are faults of tuple types. -/
theorem incompatible_or_tuple_of_faultOf {kind : MismatchKind} {s p : Ty}
    (h : kind.FaultOf policy s p) :
    kind = .incompatible p s ∨ ∃ t u, s = .tuple t ∧ p = .tuple u := by
  cases kind with
  | incompatible expected found =>
      obtain ⟨rfl, rfl, -⟩ := h
      exact .inl rfl
  | positionalArity expected found =>
      obtain ⟨t, u, hs, hp, -⟩ := h
      exact .inr ⟨t, u, hs, hp⟩
  | tagMismatch expected found =>
      obtain ⟨t, u, hs, hp, -⟩ := h
      exact .inr ⟨t, u, hs, hp⟩
  | missingField f =>
      obtain ⟨t, u, hs, hp, -⟩ := h
      exact .inr ⟨t, u, hs, hp⟩
  | extraField f =>
      obtain ⟨t, u, hs, hp, -⟩ := h
      exact .inr ⟨t, u, hs, hp⟩

/-- A fault at the end of a path is what the check reports. -/
theorem error_of_leadsTo {sub sup s p : Ty} {path : List TupleKey} {kind : MismatchKind}
    (hsub : sub.WellFormed) (hsup : sup.WellFormed) (h : LeadsTo policy sub sup path s p)
    (hfault : kind.FaultOf policy s p) : checkSubtype policy sub sup = .error ⟨path, kind⟩ := by
  induction h with
  | here stop =>
      rcases incompatible_or_tuple_of_faultOf hfault with rfl | ⟨t, u, rfl, rfl⟩
      · obtain ⟨-, -, hfails, hnone⟩ := hfault
        exact (checkSubtype_eq_error_iff_incompatible stop hnone).mpr ⟨hfails, rfl⟩
      · exact error_of_faultOf_tuple (wellFormed_tuple_iff.mp hsub).1
          (wellFormed_tuple_iff.mp hsup).1 hfault
  | union first fails _ ih =>
      have ha := wellFormed_union_iff.mp hsub _ (List.mem_of_getElem? first.1)
      rw [checkSubtype]
      exact checkEachSubtype_eq_error_iff.mpr ⟨_, _, first, ih ha hsup hfault⟩
  | member comparable before left right _ ih =>
      have ha := wellFormed_of_getKey hsub left
      have hb := wellFormed_of_getKey hsup right
      exact error_of_member (wellFormed_tuple_iff.mp hsub).1 (wellFormed_tuple_iff.mp hsup).1
        comparable before left right (ih ha hb hfault)

/-- A subtype check reports a mismatch exactly when its path leads to a pair of types with the
fault. -/
theorem checkSubtype_reports_first_fault (policy : TuplePolicy) {sub sup : Ty}
    (hsub : sub.WellFormed) (hsup : sup.WellFormed) (m : TypeMismatch) :
    checkSubtype policy sub sup = .error m ↔
      ∃ s p, LeadsTo policy sub sup m.path s p ∧ m.kind.FaultOf policy s p := by
  constructor
  · intro h
    exact exists_leadsTo_of_error hsub hsup h
  · rintro ⟨s, p, hleads, hfault⟩
    exact error_of_leadsTo hsub hsup hleads hfault

/-- The second member of the union has a field of another type than expected. -/
theorem checkSubtype_reports_first_fault_of_records :
    let policy : TuplePolicy := {}
    let record (a b : Ty) := tuple ⟨⟨0, 0, .ascendingPair 0⟩, [], [a, b]⟩
    let reversed (a b : Ty) := tuple ⟨⟨0, 1, .descendingPair 0⟩, [], [b, a]⟩
    let single (a : Ty) := tuple ⟨⟨0, 2, .ofPositional 1⟩, [a], []⟩
    let sup := single (record (scalar .int) (scalar .str))
    let sub := single (union
      [record (scalar .int) (scalar .str), reversed (scalar .int) (scalar .nil)])
    let m : TypeMismatch := ⟨[.index 0, .field ⟨2⟩], .incompatible (scalar .str) (scalar .nil)⟩
    checkSubtype policy sub sup = .error m ∧
      ∃ s p, LeadsTo policy sub sup m.path s p ∧ m.kind.FaultOf policy s p := by
  intro policy record reversed single sup sub m
  have hwf : sub.WellFormed ∧ sup.WellFormed := by
    simp [sub, sup, single, record, reversed, Tuple.members, Tuple.wellFormed_iff, Tuple.layout,
      Layout.ascendingPair, Layout.descendingPair, Layout.ofPositional]
  have herror : checkSubtype policy sub sup = .error m := by with_unfolding_all rfl
  exact ⟨herror, (checkSubtype_reports_first_fault policy hwf.1 hwf.2 m).mp herror⟩

end Ty

end TaggedTuple
