import TaggedTuple.Proofs.Ty.Order

/-!
# Unknown types cause no new errors

`Ty.Blurs a a'` says that `a'` is `a` with some subterms, at any depth and possibly all of it,
replaced by `Unknown`. Comparisons are monotone along it on both sides at once
(`isSubtype_and_isEquivalent_of_blurs`): a part that could not be inferred makes no check fail that
would have passed with the part known.

Subtyping is followed along the left type and, below an atomic left type, along the right one, the
order in which the rules take unions apart. Equivalence has rules of its own and comes back to
subtyping by `isEquivalent_iff`.
-/

namespace TaggedTuple

/-! ### Tuple types -/

namespace Tuple

variable {α β γ δ : Type} {policy : TuplePolicy}

/-- Members that are related slot by slot on one layout are related by name. -/
theorem rel_of_forall₂ {r : α → β → Prop} {t : Tuple α} {u : Tuple β}
    (hshared : u.shared = t.shared) (hpositional : List.Forall₂ r t.positional u.positional)
    (hvalues : List.Forall₂ r t.values u.values) : Rel r t u where
  tag_eq := by simp only [tag, layout, hshared]
  positional := hpositional
  field f := by
    simp only [field?, layout, hshared]
    refine optionRel_bind (optionRel_refl (r := Eq) fun _ _ => rfl) fun i _ hi => ?_
    exact hi ▸ forall₂_getElem? hvalues i

/-- Lists that are related slot by slot fill the same layouts. -/
theorem wellFormed_of_forall₂ {r : α → β → Prop} {t : Tuple α} {u : Tuple β} (ht : t.WellFormed)
    (hshared : u.shared = t.shared) (hpositional : List.Forall₂ r t.positional u.positional)
    (hvalues : List.Forall₂ r t.values u.values) : u.WellFormed where
  positional_length := by
    rw [← hpositional.length_eq, layout, hshared]
    exact ht.positional_length
  values_length := by
    rw [← hvalues.length_eq, layout, hshared]
    exact ht.values_length

/-- The rule for tuple types carries over to tuples with related members on either side. -/
theorem standsFor_of_rel {r : α → γ → Prop} {s : β → δ → Prop} {q : α → β → Prop}
    {q' : γ → δ → Prop} {t : Tuple α} {u : Tuple β} {t' : Tuple γ} {u' : Tuple δ}
    (h : t.StandsFor policy q u) (ht : Rel r t t') (hu : Rel s u u')
    (hq : ∀ a ∈ t.members, ∀ b ∈ u.members, ∀ c ∈ t'.members, ∀ d ∈ u'.members,
      r a c → s b d → q a b → q' c d) : t'.StandsFor policy q' u' := by
  have hleft : t'.StandsFor policy (fun c b => c ∈ t'.members ∧ ∃ a ∈ t.members, r a c ∧ q a b) u :=
    ht.flip.standsFor.trans h fun c hc a ha b _ hac hab => ⟨hc, a, ha, hac, hab⟩
  refine hleft.trans hu.standsFor ?_
  rintro c - b hb d hd ⟨hc, a, ha, hac, hab⟩ hbd
  exact hq a ha b hb c hc d hd hac hbd hab

end Tuple

namespace Ty

variable {policy : TuplePolicy}

/-! ### Replacing subterms -/

/-- The right type is the left one with some subterms replaced by `Unknown`. -/
inductive Blurs : Ty → Ty → Prop
  | unknown (a : Ty) : Blurs a .unknown
  | void : Blurs .void .void
  | scalar (s : Scalar) : Blurs (.scalar s) (.scalar s)
  | tuple {shared : SharedLayout} {positional positional' values values' : List Ty}
    (hpositional : List.Forall₂ Blurs positional positional')
    (hvalues : List.Forall₂ Blurs values values') :
    Blurs (.tuple ⟨shared, positional, values⟩) (.tuple ⟨shared, positional', values'⟩)
  | union {members members' : List Ty} (each : List.Forall₂ Blurs members members') :
    Blurs (.union members) (.union members')

/-- A tuple type is replaced as a whole or member by member, on its own layout. -/
theorem blurs_tuple_iff {t : Tuple Ty} {b : Ty} :
    (tuple t).Blurs b ↔ b = unknown ∨ ∃ u, b = tuple u ∧ u.shared = t.shared ∧
      List.Forall₂ Blurs t.positional u.positional ∧ List.Forall₂ Blurs t.values u.values := by
  constructor
  · rintro (_ | _ | _ | ⟨hpositional, hvalues⟩)
    · exact .inl rfl
    · exact .inr ⟨_, rfl, rfl, hpositional, hvalues⟩
  · obtain ⟨shared, positional, values⟩ := t
    rintro (rfl | ⟨⟨shared', positional', values'⟩, rfl, hshared, hpositional, hvalues⟩)
    · exact .unknown _
    · obtain rfl : shared' = shared := hshared
      exact .tuple hpositional hvalues

/-- What a union may be blurred to. -/
theorem blurs_union_iff {members : List Ty} {b : Ty} :
    (union members).Blurs b ↔
      b = unknown ∨ ∃ members', b = union members' ∧ List.Forall₂ Blurs members members' := by
  constructor
  · rintro (_ | _ | _ | _ | each)
    · exact .inl rfl
    · exact .inr ⟨_, rfl, each⟩
  · rintro (rfl | ⟨members', rfl, each⟩)
    · exact .unknown _
    · exact .union each

/-- What a scalar may be blurred to. -/
theorem blurs_scalar_iff {s : Scalar} {b : Ty} :
    (scalar s).Blurs b ↔ b = unknown ∨ b = scalar s := by
  constructor
  · rintro (_ | _ | _)
    · exact .inl rfl
    · exact .inr rfl
  · rintro (rfl | rfl)
    · exact .unknown _
    · exact .scalar s

/-- What `Void` may be blurred to. -/
theorem blurs_void_iff {b : Ty} : void.Blurs b ↔ b = unknown ∨ b = void := by
  constructor
  · rintro (_ | _)
    · exact .inl rfl
    · exact .inr rfl
  · rintro (rfl | rfl)
    · exact .unknown _
    · exact .void

/-- `Unknown` has no subterms that could be replaced. -/
theorem blurs_unknown_iff {b : Ty} : unknown.Blurs b ↔ b = unknown := by
  constructor
  · rintro ⟨⟩
    rfl
  · rintro rfl
    exact .unknown _

/-- Replacing subterms keeps every tuple inside well-formed. -/
theorem Blurs.wellFormed {a a' : Ty} (h : a.Blurs a') (ha : a.WellFormed) : a'.WellFormed := by
  induction ha generalizing a' with
  | unknown =>
      obtain rfl := blurs_unknown_iff.mp h
      exact .unknown
  | void => rcases blurs_void_iff.mp h with rfl | rfl <;> simp
  | scalar s => rcases blurs_scalar_iff.mp h with rfl | rfl <;> simp
  | tuple shape members ih =>
      rcases blurs_tuple_iff.mp h with rfl | ⟨u, rfl, hshared, hpositional, hvalues⟩
      · exact .unknown
      · refine .tuple (Tuple.wellFormed_of_forall₂ shape hshared hpositional hvalues) fun b hb => ?_
        obtain ⟨a, ha, hab⟩ :=
          forall₂_exists_right (List.rel_append hpositional hvalues).flip b hb
        exact ih a ha hab
  | union each ih =>
      rcases blurs_union_iff.mp h with rfl | ⟨members', rfl, hmembers⟩
      · exact .unknown
      · refine .union fun b hb => ?_
        obtain ⟨a, ha, hab⟩ := forall₂_exists_right hmembers.flip b hb
        exact ih a ha hab

/-! ### Comparisons -/

/-- Below an atomic type that stays atomic, the right type is replaced along its unions. -/
theorem isSubtype_of_blurs_right {a a' b b' : Ty} (ha : a.IsAtomic) (ha' : a'.IsAtomic)
    (hwf' : a'.WellFormed) (hb : b.WellFormed) (hbb' : b.Blurs b')
    (hscalar : ∀ s, isSubtype policy a (.scalar s) = true → isSubtype policy a' (.scalar s) = true)
    (htuple : ∀ u b', (tuple u).WellFormed → (tuple u).Blurs b' →
      isSubtype policy a (.tuple u) = true → isSubtype policy a' b' = true)
    (h : isSubtype policy a b = true) : isSubtype policy a' b' = true := by
  induction hb generalizing b' with
  | unknown =>
      obtain rfl := blurs_unknown_iff.mp hbb'
      exact isSubtype_unknown_right hwf'
  | void =>
      rw [not_isSubtype_void ha] at h
      cases h
  | scalar s =>
      rcases blurs_scalar_iff.mp hbb' with rfl | rfl
      · exact isSubtype_unknown_right hwf'
      · exact hscalar s h
  | tuple shape members _ => exact htuple _ b' (.tuple shape members) hbb' h
  | union _ ih =>
      rcases blurs_union_iff.mp hbb' with rfl | ⟨members', rfl, hmembers⟩
      · exact isSubtype_unknown_right hwf'
      · obtain ⟨b, hb, hab⟩ := (isSubtype_union_right ha).mp h
        obtain ⟨c, hc, hbc⟩ := forall₂_exists_right hmembers b hb
        exact (isSubtype_union_right ha').mpr ⟨c, hc, ih b hb hbc hab⟩

/-- Blurring both sides keeps subtyping. -/
theorem isSubtype_of_blurs {a a' b b' : Ty} (ha : a.WellFormed) (hb : b.WellFormed)
    (haa' : a.Blurs a') (hbb' : b.Blurs b') (h : isSubtype policy a b = true) :
    isSubtype policy a' b' = true := by
  have hwf' := haa'.wellFormed ha
  induction ha generalizing a' b b' with
  | unknown =>
      obtain rfl := blurs_unknown_iff.mp haa'
      exact isSubtype_unknown_left _
  | void =>
      rcases blurs_void_iff.mp haa' with rfl | rfl
      · exact isSubtype_unknown_left _
      · exact isSubtype_void_left _
  | scalar s =>
      rcases blurs_scalar_iff.mp haa' with rfl | rfl
      · exact isSubtype_unknown_left _
      · refine isSubtype_of_blurs_right (isAtomic_scalar s) (isAtomic_scalar s) hwf' hb hbb'
          (fun _ hs => hs) (fun u _ _ _ hu => ?_) h
        rw [not_isSubtype_scalar_tuple] at hu
        cases hu
  | tuple shape members ih =>
      rcases blurs_tuple_iff.mp haa' with rfl | ⟨t', rfl, hshared, hpositional, hvalues⟩
      · exact isSubtype_unknown_left _
      · refine isSubtype_of_blurs_right (isAtomic_tuple _) (isAtomic_tuple _) hwf' hb hbb'
          (fun s hs => ?_) (fun u b' hu hub' htu => ?_) h
        · rw [not_isSubtype_tuple_scalar] at hs
          cases hs
        · rcases blurs_tuple_iff.mp hub' with rfl | ⟨u', rfl, hshared', hpositional', hvalues'⟩
          · exact isSubtype_unknown_right hwf'
          · obtain ⟨hushape, humembers⟩ := wellFormed_tuple_iff.mp hu
            obtain ⟨htshape', htmembers'⟩ := wellFormed_tuple_iff.mp hwf'
            have hushape' := Tuple.wellFormed_of_forall₂ hushape hshared' hpositional' hvalues'
            rw [isSubtype_tuple_tuple shape hushape] at htu
            rw [isSubtype_tuple_tuple htshape' hushape']
            exact Tuple.standsFor_of_rel htu (Tuple.rel_of_forall₂ hshared hpositional hvalues)
              (Tuple.rel_of_forall₂ hshared' hpositional' hvalues')
              fun a ha b hb c hc d _ hac hbd hab =>
                ih a ha (humembers b hb) hac hbd hab (htmembers' c hc)
  | union _ ih =>
      rcases blurs_union_iff.mp haa' with rfl | ⟨members', rfl, hmembers⟩
      · exact isSubtype_unknown_left _
      · rw [isSubtype_union_left] at h ⊢
        intro c hc
        obtain ⟨a, ha, hac⟩ := forall₂_exists_right hmembers.flip c hc
        exact ih a ha hb hac hbb' (h a ha) (wellFormed_union_iff.mp hwf' c hc)

/-- Replacing subterms of either type by `Unknown` never makes a comparison fail that held. -/
theorem isSubtype_and_isEquivalent_of_blurs (policy : TuplePolicy) {a a' b b' : Ty}
    (ha : a.WellFormed) (hb : b.WellFormed) (haa' : a.Blurs a') (hbb' : b.Blurs b') :
    (isSubtype policy a b = true → isSubtype policy a' b' = true) ∧
      (isEquivalent policy a b = true → isEquivalent policy a' b' = true) := by
  refine ⟨isSubtype_of_blurs ha hb haa' hbb', fun h => ?_⟩
  obtain ⟨hab, hba⟩ := (isEquivalent_iff ha hb).mp h
  rw [isEquivalent_iff (haa'.wellFormed ha) (hbb'.wellFormed hb)]
  exact ⟨isSubtype_of_blurs ha hb haa' hbb' hab, isSubtype_of_blurs hb ha hbb' haa' hba⟩

/-- Equivalent records, a member of a union forgotten on the left and one of a tuple inside the
other record on the right. -/
theorem isSubtype_and_isEquivalent_of_blurs_of_records :
    let policy : TuplePolicy := ⟨.exact, .exact⟩
    let single : Ty → Ty := fun a => tuple ⟨⟨0, 2, .ofPositional 1⟩, [a], []⟩
    let left : Ty → Ty := fun c =>
      tuple ⟨⟨0, 0, .ascendingPair 0⟩, [], [single (scalar .int), union [scalar .str, c]]⟩
    let right : Ty → Ty := fun d =>
      tuple ⟨⟨0, 1, .descendingPair 0⟩, [], [union [scalar .nil, scalar .str], single d]⟩
    isEquivalent policy (left (scalar .nil)) (right (scalar .int)) = true ∧
      isSubtype policy (left unknown) (right unknown) = true ∧
      isEquivalent policy (left unknown) (right unknown) = true := by
  intro policy single left right
  have hwf : (left (scalar .nil)).WellFormed ∧ (right (scalar .int)).WellFormed := by
    simp [left, right, single, Tuple.members, Tuple.wellFormed_iff, Tuple.layout,
      Layout.ascendingPair, Layout.descendingPair, Layout.ofPositional]
  have hsingle : ∀ {a a' : Ty}, a.Blurs a' → (single a).Blurs (single a') :=
    fun h => .tuple (.cons h .nil) .nil
  have hleft : (left (scalar .nil)).Blurs (left unknown) :=
    .tuple .nil (.cons (hsingle (.scalar .int))
      (.cons (.union (.cons (.scalar .str) (.cons (.unknown _) .nil))) .nil))
  have hright : (right (scalar .int)).Blurs (right unknown) :=
    .tuple .nil (.cons (.union (.cons (.scalar .nil) (.cons (.scalar .str) .nil)))
      (.cons (hsingle (.unknown _)) .nil))
  obtain ⟨hsubtype, hequivalent⟩ :=
    isSubtype_and_isEquivalent_of_blurs policy hwf.1 hwf.2 hleft hright
  have hheld : isEquivalent policy (left (scalar .nil)) (right (scalar .int)) = true := by
    with_unfolding_all rfl
  exact ⟨hheld, hsubtype (by with_unfolding_all rfl), hequivalent hheld⟩

end Ty

end TaggedTuple
