import TaggedTuple.Proofs.EqualityLaws
import TaggedTuple.Proofs.Tuple.Update

/-!
# A change inside one member is judged by that member

Two tuple types on one layout are compared member by member, under either rule and every policy
(`checkTuple_eq_checkMembers`, `checkSameTuple_eq_checkMembers`). When all members but one pass,
what is left is the outcome for that one, seen from its tuple (`checkMembers_eq_checkMember`). Every
type passes against itself, so two types that differ at one path only are compared like the types
at that path: they pass or fail together, and a mismatch has the path in front
(`comparison_of_replaceAt`).
-/

namespace TaggedTuple

namespace Ty

variable {policy : TuplePolicy}

/-! ### Types at a path -/

/-- The type that stands at a path of member addresses. -/
def typeAt? : Ty → List TupleKey → Option Ty
  | a, [] => some a
  | a, key :: path => do
    let t ← a.tuple?
    let member ← (t.getKey key).toOption
    member.typeAt? path

/-- The type with another one in place of the one at a path: one update of each tuple type on the
way. -/
def replaceAt? (value : Ty) : Ty → List TupleKey → Option Ty
  | _, [] => some value
  | a, key :: path => do
    let t ← a.tuple?
    let member ← (t.getKey key).toOption
    let changed ← replaceAt? value member path
    let t ← (t.withUpdated key changed).toOption
    return .tuple t

/-- The outcome for the type at a path, seen from the type that holds it. -/
def checkAt (path : List TupleKey) (outcome : TypeCheck) : TypeCheck :=
  outcome.mapError fun m => { m with path := path ++ m.path }

/-- At the empty path the outcome is seen as it is. -/
theorem checkAt_nil (outcome : TypeCheck) : checkAt [] outcome = outcome := by
  cases outcome <;> rfl

/-- A longer path adds one step in front. -/
theorem checkAt_cons (key : TupleKey) (path : List TupleKey) (outcome : TypeCheck) :
    checkAt (key :: path) outcome = checkMember key (checkAt path outcome) := by
  cases outcome <;> rfl

/-- An outcome has a value when it is no error. -/
theorem toOption_eq_some_iff {ε α : Type} {x : Except ε α} {a : α} :
    x.toOption = some a ↔ x = .ok a := by
  cases x <;> simp [Except.toOption]

/-- A path leads into a member of a tuple type. -/
theorem typeAt?_cons_eq_some_iff {a c : Ty} {key : TupleKey} {path : List TupleKey} :
    a.typeAt? (key :: path) = some c ↔
      ∃ t member, a = tuple t ∧ t.getKey key = .ok member ∧ member.typeAt? path = some c := by
  rw [typeAt?]
  simp only [Option.bind_eq_bind, Option.bind_eq_some_iff, toOption_eq_some_iff]
  constructor
  · rintro ⟨t, ht, member, hmember, hc⟩
    cases a with
    | tuple t' =>
        cases ht
        exact ⟨t, member, rfl, hmember, hc⟩
    | unknown => cases ht
    | void => cases ht
    | scalar s => cases ht
    | union members => cases ht
  · rintro ⟨t, member, rfl, hmember, hc⟩
    exact ⟨t, rfl, member, hmember, hc⟩

/-- A replacement inside a member is an update of that member. -/
theorem replaceAt?_cons_of_getKey {t t' : Tuple Ty} {key : TupleKey} {path : List TupleKey}
    {value member changed : Ty} (hmember : t.getKey key = .ok member)
    (hchanged : replaceAt? value member path = some changed)
    (ht' : t.withUpdated key changed = .ok t') :
    replaceAt? value (.tuple t) (key :: path) = some (.tuple t') := by
  rw [replaceAt?]
  simp only [tuple?, hmember, Except.toOption, Option.bind_eq_bind, Option.bind_some, hchanged,
    ht']
  rfl

/-! ### Checks in a row that pass but for one -/

/-- A check that passes can be left out at the end. -/
theorem bind_eq_left_of_isOk {check rest : TypeCheck} (h : rest.isOk = true) :
    (check >>= fun _ => rest) = check := by
  cases check with
  | error m => rfl
  | ok _ =>
      cases rest with
      | error m => cases h
      | ok _ => rfl

/-- A check that passes can be left out at the front. -/
theorem bind_eq_right_of_isOk {check rest : TypeCheck} (h : check.isOk = true) :
    (check >>= fun _ => rest) = rest := by
  cases check with
  | error m => cases h
  | ok _ => rfl

/-- When all positional members but one pass, that one decides. -/
theorem checkPositional_eq_checkMember {checks : List (Ty → TypeCheck)} {members : List Ty}
    {i : Nat} {check : Ty → TypeCheck} {b : Ty} (hlength : checks.length = members.length)
    (hcheck : checks[i]? = some check) (hb : members[i]? = some b)
    (hothers : ∀ (j : Nat) c d, j ≠ i → checks[j]? = some c → members[j]? = some d →
      (c d).isOk = true) (k : Nat) :
    checkPositional k checks members = checkMember (.index (k + i)) (check b) := by
  induction checks generalizing i k members with
  | nil => cases hcheck
  | cons c checks ih =>
      cases members with
      | nil => cases hb
      | cons d members =>
          have hlength := Nat.succ.inj hlength
          rw [checkPositional]
          cases i with
          | zero =>
              obtain rfl : c = check := Option.some.inj hcheck
              obtain rfl : d = b := Option.some.inj hb
              apply bind_eq_left_of_isOk
              rw [isOk_checkPositional_iff hlength, List.forall₂_iff_get]
              refine ⟨hlength, fun j hj hj' => ?_⟩
              exact hothers (j + 1) _ _ (Nat.succ_ne_zero j) (List.getElem?_eq_getElem hj)
                (List.getElem?_eq_getElem hj')
          | succ i =>
              rw [bind_eq_right_of_isOk, ih hlength hcheck hb, Nat.add_right_comm, Nat.add_assoc]
              · intro j c d hj hc hd
                exact hothers (j + 1) c d (fun h => hj (Nat.succ.inj h)) hc hd
              · rw [isOk_checkMember]
                exact hothers 0 c d (Nat.succ_ne_zero i).symm rfl rfl

/-- When all fields but one pass, that one decides. -/
theorem checkFields_eq_checkMember {found : Tuple (Ty → TypeCheck)} {expected : List (Symbol × Ty)}
    {f : Symbol} {check : Ty → TypeCheck} {b : Ty} (hnodup : (expected.map Prod.fst).Nodup)
    (hb : (f, b) ∈ expected) (hcheck : found.field? f = some check)
    (hothers : ∀ x ∈ expected, x.1 ≠ f →
      ∃ c, found.field? x.1 = some c ∧ (c x.2).isOk = true) :
    checkFields found expected = checkMember (.field f) (check b) := by
  induction expected with
  | nil => cases hb
  | cons x expected ih =>
      obtain ⟨g, d⟩ := x
      obtain ⟨hg, hnodup⟩ := List.nodup_cons.mp hnodup
      rw [checkFields]
      rcases List.mem_cons.mp hb with heq | hmem
      · obtain ⟨rfl, rfl⟩ := Prod.mk.inj heq
        simp only [hcheck]
        apply bind_eq_left_of_isOk
        rw [isOk_checkFields_iff]
        intro x hx
        apply hothers x (List.mem_cons_of_mem _ hx)
        rintro rfl
        exact hg (List.mem_map.mpr ⟨x, hx, rfl⟩)
      · have hgf : g ≠ f := by
          rintro rfl
          exact hg (List.mem_map.mpr ⟨(g, b), hmem, rfl⟩)
        obtain ⟨c, hc, hok⟩ := hothers (g, d) List.mem_cons_self hgf
        simp only [hc]
        rw [bind_eq_right_of_isOk (isOk_checkMember.trans hok)]
        exact ih hnodup hmem fun x hx => hothers x (List.mem_cons_of_mem _ hx)

/-- Where no field is absent, it makes no difference what happens to absent ones. -/
theorem checkPresentFields_eq_checkFields {found : Tuple (Ty → TypeCheck)}
    {expected : List (Symbol × Ty)}
    (h : ∀ x ∈ expected, (found.field? x.1).isSome = true) :
    checkPresentFields found expected = checkFields found expected := by
  induction expected with
  | nil => rfl
  | cons x expected ih =>
      obtain ⟨f, b⟩ := x
      obtain ⟨check, hcheck⟩ := Option.isSome_iff_exists.mp (h (f, b) List.mem_cons_self)
      rw [checkPresentFields, checkFields, ih fun x hx => h x (List.mem_cons_of_mem _ hx)]
      simp only [hcheck]

/-! ### Tuple types on one layout -/

/-- A layout has no extra field against itself. -/
theorem extraField?_self (l : Layout) : extraField? l l = none :=
  extraField?_eq_none_iff.mpr fun _ => id

/-- The members of a tuple type one by one, those of the left one given as checks. -/
def checkMembers (t : Tuple (Ty → TypeCheck)) (u : Tuple Ty) : TypeCheck := do
  checkPositional 0 t.positional u.positional
  checkFields t u.namedAscending

section layout

variable {t : Tuple (Ty → TypeCheck)} {u : Tuple Ty} (hlayout : t.layout = u.layout)
include hlayout

/-- The arities on one layout are equal. -/
theorem checkArity_of_layout_eq : checkArity t u = .ok () := by
  rw [checkArity, Tuple.arity, Tuple.arity, hlayout, if_pos rfl]

/-- On one layout the rule for subtyping goes member by member. -/
theorem checkTuple_eq_checkMembers : checkTuple policy t u = checkMembers t u := by
  have htag : policy.tags.accepts t.tag u.tag = true := by
    rw [Tuple.tag, Tuple.tag, hlayout]
    exact TagPolicy.accepts_iff_allows.mpr .same
  have hwidth : checkWidth policy.width t.layout u.layout = .ok () := by
    rw [hlayout]
    unfold checkWidth
    rw [extraField?_self]
    cases policy.width <;> rfl
  unfold checkTuple checkMembers
  rw [checkArity_of_layout_eq hlayout, if_pos htag, hwidth]
  have hlast : (checkFields t u.namedAscending >>= fun _ => Except.ok ())
      = checkFields t u.namedAscending := bind_eq_left_of_isOk rfl
  show (checkPositional 0 t.positional u.positional >>= fun _ =>
    checkFields t u.namedAscending >>= fun _ => Except.ok ()) = _
  rw [hlast]

/-- On one layout the rule for equivalence goes member by member. -/
theorem checkSameTuple_eq_checkMembers (ht : t.WellFormed) :
    checkSameTuple t u = checkMembers t u := by
  have htag : t.tag = u.tag := by rw [Tuple.tag, Tuple.tag, hlayout]
  have hpresent : ∀ x ∈ u.namedAscending, (t.field? x.1).isSome = true := by
    intro x hx
    rw [ht.isSome_field?_iff, hlayout]
    exact (List.of_mem_zip (u.perm_namedAscending.mem_iff.mp hx)).1
  unfold checkSameTuple checkMembers
  rw [checkArity_of_layout_eq hlayout, if_pos htag, hlayout, extraField?_self,
    checkPresentFields_eq_checkFields hpresent]
  rfl

end layout

/-- When all members but one pass, the outcome is that of the one. -/
theorem checkMembers_eq_checkMember {t : Tuple (Ty → TypeCheck)} {u : Tuple Ty}
    (ht : t.WellFormed) (hu : u.WellFormed) (hlayout : t.layout = u.layout) {key : TupleKey}
    {check : Ty → TypeCheck} {b : Ty} (hcheck : t.getKey key = .ok check)
    (hb : u.getKey key = .ok b)
    (hothers : ∀ other c d, other ≠ key → t.getKey other = .ok c → u.getKey other = .ok d →
      (c d).isOk = true) :
    checkMembers t u = checkMember key (check b) := by
  have hlength : t.positional.length = u.positional.length := by
    rw [ht.positional_length, hu.positional_length, hlayout]
  have hindex : ∀ (j : Nat) c d, .index j ≠ key → t.positional[j]? = some c →
      u.positional[j]? = some d → (c d).isOk = true := by
    intro j c d hne hc hd
    apply hothers (.index j) c d hne
    · exact ht.getKey_index_eq_ok_iff.mpr hc
    · exact hu.getKey_index_eq_ok_iff.mpr hd
  have hfield : ∀ x ∈ u.namedAscending, .field x.1 ≠ key →
      ∃ c, t.field? x.1 = some c ∧ (c x.2).isOk = true := by
    rintro ⟨g, d⟩ hx hne
    have hd : u.field? g = some d := hu.mem_namedAscending_iff.mp hx
    have hg : g ∈ t.layout.fields := by
      rw [hlayout, ← hu.isSome_field?_iff, hd]
      rfl
    obtain ⟨c, hc⟩ := Option.isSome_iff_exists.mp (ht.isSome_field?_iff.mpr hg)
    refine ⟨c, hc, hothers (.field g) c d hne ?_ ?_⟩
    · exact Tuple.getKey_field_eq_ok_iff.mpr hc
    · exact Tuple.getKey_field_eq_ok_iff.mpr hd
  unfold checkMembers
  cases key with
  | index i =>
      rw [ht.getKey_index_eq_ok_iff] at hcheck
      rw [hu.getKey_index_eq_ok_iff] at hb
      rw [bind_eq_left_of_isOk, checkPositional_eq_checkMember hlength hcheck hb, Nat.zero_add]
      · intro j c d hj
        exact hindex j c d fun heq => hj (TupleKey.index.inj heq)
      · rw [isOk_checkFields_iff]
        exact fun x hx => hfield x hx TupleKey.noConfusion
  | field f =>
      rw [Tuple.getKey_field_eq_ok_iff] at hcheck hb
      rw [bind_eq_right_of_isOk]
      · apply checkFields_eq_checkMember hu.nodup_keys_namedAscending
          (hu.mem_namedAscending_iff.mpr hb) hcheck
        exact fun x hx hne => hfield x hx fun heq => hne (TupleKey.field.inj heq)
      · rw [isOk_checkPositional_iff hlength, List.forall₂_iff_get]
        refine ⟨hlength, fun j hj hj' => ?_⟩
        exact hindex j _ _ TupleKey.noConfusion (List.getElem?_eq_getElem hj)
          (List.getElem?_eq_getElem hj')

/-! ### A tuple type with one member changed -/

/-- A type is a subtype of itself. -/
theorem isSubtype_refl {a : Ty} (ha : a.WellFormed) : isSubtype policy a a = true :=
  isSubtype_of_beq ha ha (beq_refl ha)

/-- A type is equivalent to itself. -/
theorem isEquivalent_refl {a : Ty} (ha : a.WellFormed) : isEquivalent policy a a = true :=
  (isEquivalent_iff ha ha).mpr ⟨isSubtype_refl ha, isSubtype_refl ha⟩

section changed

variable {t tu tv : Tuple Ty} {key : TupleKey} {u v : Ty} (ht : t.WellFormed)
  (hu : t.UpdatedAt tu key u) (hv : t.UpdatedAt tv key v)
include ht hu hv

/-- Checks that pass every member against itself see the changed member only. -/
theorem checkMembers_of_updatedAt {check : Ty → Ty → TypeCheck}
    (hrefl : ∀ a ∈ t.members, (check a a).isOk = true) :
    checkMembers (tu.map check) tv = checkMember key (check u v) := by
  have hlayout : (tu.map check).layout = tv.layout := by
    rw [Tuple.layout_map, Tuple.layout, Tuple.layout, hu.shared_eq, hv.shared_eq]
  apply checkMembers_eq_checkMember (hu.wellFormed.map check) hv.wellFormed hlayout
  · rw [Tuple.getKey_map, hu.getKey_self]
    rfl
  · exact hv.getKey_self
  · intro other c d hne hc hd
    rw [Tuple.getKey_map, hu.getKey_other other hne] at hc
    rw [hv.getKey_other other hne] at hd
    rw [hd] at hc
    obtain rfl : check d = c := Except.ok.inj hc
    exact hrefl d (Tuple.mem_members_of_getKey ht hd)

/-- Tuple types that differ in one member are below each other as the members are. -/
theorem checkSubtype_of_updatedAt (members : ∀ a ∈ t.members, a.WellFormed) :
    checkSubtype policy (.tuple tu) (.tuple tv) = checkMember key (checkSubtype policy u v) := by
  have hlayout : tu.layout = tv.layout := by
    rw [Tuple.layout, Tuple.layout, hu.shared_eq, hv.shared_eq]
  rw [checkSubtype_tuple, checkTuple_eq_checkMembers hlayout]
  apply checkMembers_of_updatedAt ht hu hv
  exact fun a ha => isSubtype_refl (members a ha)

/-- Tuple types that differ in one member are equivalent as the members are. -/
theorem checkEquivalent_of_updatedAt (members : ∀ a ∈ t.members, a.WellFormed) :
    checkEquivalent policy (.tuple tu) (.tuple tv)
      = checkMember key (checkEquivalent policy u v) := by
  have hlayout : tu.layout = tv.layout := by
    rw [Tuple.layout, Tuple.layout, hu.shared_eq, hv.shared_eq]
  rw [checkEquivalent_tuple, checkSameTuple_eq_checkMembers hlayout (hu.wellFormed.map _)]
  apply checkMembers_of_updatedAt ht hu hv
  exact fun a ha => isEquivalent_refl (members a ha)

end changed

/-! ### A type with the type at one path changed -/

/-- Types that differ at one path only are compared like the types at that path: they pass together,
or fail with the same mismatch, its path continued from there. -/
theorem comparison_of_replaceAt (policy : TuplePolicy) {a c : Ty} (ha : a.WellFormed)
    {path : List TupleKey} (hc : a.typeAt? path = some c) (u v : Ty) :
    ∃ au av, replaceAt? u a path = some au ∧ replaceAt? v a path = some av ∧
      au.typeAt? path = some u ∧ av.typeAt? path = some v ∧
      checkSubtype policy au av = checkAt path (checkSubtype policy u v) ∧
      checkEquivalent policy au av = checkAt path (checkEquivalent policy u v) := by
  induction path generalizing a with
  | nil => exact ⟨u, v, rfl, rfl, rfl, rfl, (checkAt_nil _).symm, (checkAt_nil _).symm⟩
  | cons key path ih =>
      obtain ⟨t, member, rfl, hmember, hc⟩ := typeAt?_cons_eq_some_iff.mp hc
      obtain ⟨shape, members⟩ := wellFormed_tuple_iff.mp ha
      obtain ⟨mu, mv, hmu, hmv, hatu, hatv, hsub, hequiv⟩ :=
        ih (members member (Tuple.mem_members_of_getKey shape hmember)) hc
      obtain ⟨tu, htu⟩ := Tuple.exists_withUpdated shape hmember mu
      obtain ⟨tv, htv⟩ := Tuple.exists_withUpdated shape hmember mv
      have hu := Tuple.updatedAt_of_withUpdated shape htu
      have hv := Tuple.updatedAt_of_withUpdated shape htv
      refine ⟨.tuple tu, .tuple tv, replaceAt?_cons_of_getKey hmember hmu htu,
        replaceAt?_cons_of_getKey hmember hmv htv, ?_, ?_, ?_, ?_⟩
      · exact typeAt?_cons_eq_some_iff.mpr ⟨tu, mu, rfl, hu.getKey_self, hatu⟩
      · exact typeAt?_cons_eq_some_iff.mpr ⟨tv, mv, rfl, hv.getKey_self, hatv⟩
      · rw [checkAt_cons, ← hsub]
        exact checkSubtype_of_updatedAt shape hu hv members
      · rw [checkAt_cons, ← hequiv]
        exact checkEquivalent_of_updatedAt shape hu hv members

/-- A change below two tuple types, in the place of a union that `Unknown` is a member of. -/
theorem comparison_of_replaceAt_of_nested_record :
    let single (a : Ty) := tuple ⟨⟨0, 2, .ofPositional 1⟩, [a], []⟩
    let a := tuple ⟨⟨0, 0, .descendingPair 0⟩, [],
      [single (union [unknown, scalar .nil]), scalar .int]⟩
    let path : List TupleKey := [.field ⟨2⟩, .index 0]
    let v := union [scalar .int, void]
    let m : TypeMismatch := ⟨path, .incompatible v (scalar .str)⟩
    ∃ au av, replaceAt? (scalar .str) a path = some au ∧ replaceAt? v a path = some av ∧
      checkSubtype {} au av = .error m ∧ checkEquivalent {} au av = .error m := by
  intro single a path v m
  have ha : a.WellFormed := by
    simp [a, single, Tuple.members, Tuple.wellFormed_iff, Tuple.layout, Layout.descendingPair,
      Layout.ofPositional]
  have hc : a.typeAt? path = some (union [unknown, scalar .nil]) := by with_unfolding_all rfl
  have hsubtype : checkSubtype {} (scalar .str) v = mismatch (.incompatible v (scalar .str)) := by
    with_unfolding_all rfl
  have hequivalent :
      checkEquivalent {} (scalar .str) v = mismatch (.incompatible v (scalar .str)) := by
    with_unfolding_all rfl
  obtain ⟨au, av, hau, hav, -, -, hsub, hequiv⟩ :=
    comparison_of_replaceAt {} ha hc (scalar .str) v
  refine ⟨au, av, hau, hav, ?_, ?_⟩
  · rw [hsub, hsubtype]
    rfl
  · rw [hequiv, hequivalent]
    rfl

end Ty

end TaggedTuple
