import TaggedTuple.Value
import TaggedTuple.Proofs.Tuple.Equality

/-!
# Equality of values

A value is well-formed when every tuple inside it is. On well-formed values equality is an
equivalence relation (`beq_refl`, `beq_symm`, `beq_trans`), by induction on the value: tuples are
compared member by member, whatever order their layouts declare the fields in.

`Value.Agree` puts the three facts together that two runs of an operation have to keep: both values
are well-formed, and they are equal. Tuples agree exactly when their members do
(`agree_tuple_iff`).
-/

namespace TaggedTuple

namespace Value

/-- Every tuple inside the value is well-formed. -/
inductive WellFormed : Value → Prop
  | int (n : Int64) : WellFormed (.int n)
  | str (s : String) : WellFormed (.str s)
  | tuple {t : Tuple Value} (shape : t.WellFormed) (members : ∀ v ∈ t.members, WellFormed v) :
    WellFormed (.tuple t)

/-- A tuple value is well-formed when its tuple and all its members are. -/
theorem wellFormed_tuple_iff {t : Tuple Value} :
    (tuple t).WellFormed ↔ t.WellFormed ∧ ∀ v ∈ t.members, v.WellFormed := by
  constructor
  · rintro (_ | _ | ⟨shape, members⟩)
    exact ⟨shape, members⟩
  · rintro ⟨shape, members⟩
    exact .tuple shape members

/-- The fields of a well-formed tuple are well-formed. -/
theorem WellFormed.of_field? {t : Tuple Value} (h : (Value.tuple t).WellFormed) {f : Symbol}
    {v : Value} (hv : t.field? f = some v) : v.WellFormed :=
  (wellFormed_tuple_iff.mp h).2 v (Tuple.mem_members_of_field? hv)

/-- The positional members of a well-formed tuple are well-formed. -/
theorem WellFormed.of_mem_positional {t : Tuple Value} (h : (Value.tuple t).WellFormed) {v : Value}
    (hv : v ∈ t.positional) : v.WellFormed :=
  (wellFormed_tuple_iff.mp h).2 v (Tuple.mem_members_of_positional hv)

/-! ### The test, by the kind of the left value -/

/-- A number equals only itself. -/
theorem int_beq_iff {n : Int64} {v : Value} : (int n == v) = true ↔ v = int n := by
  show (v.int? == some n) = true ↔ _
  cases v <;> simp [int?]

/-- A string equals only itself. -/
theorem str_beq_iff {s : String} {v : Value} : (str s == v) = true ↔ v = str s := by
  show (v.str? == some s) = true ↔ _
  cases v <;> simp [str?]

/-- Tuple values are equal as their tuples are. -/
theorem tuple_beq_tuple {t u : Tuple Value} : (tuple t == tuple u) = (t == u) := equal_tuple t u

/-- A tuple value equals only equal tuple values. -/
theorem tuple_beq_iff {t : Tuple Value} {v : Value} :
    (tuple t == v) = true ↔ ∃ u, v = tuple u ∧ (t == u) = true := by
  cases v with
  | int n => exact ⟨nofun, nofun⟩
  | str s => exact ⟨nofun, nofun⟩
  | tuple u => rw [tuple_beq_tuple]; simp

/-! ### An equivalence relation -/

/-- A well-formed value equals itself. -/
theorem beq_refl {a : Value} (ha : a.WellFormed) : (a == a) = true := by
  induction ha with
  | int n => exact int_beq_iff.mpr rfl
  | str s => exact str_beq_iff.mpr rfl
  | tuple shape _ ih =>
      rw [tuple_beq_tuple, Tuple.beq_iff shape shape]
      exact Tuple.Rel.refl ih

/-- Equality of well-formed values is symmetric. -/
theorem beq_symm {a b : Value} (ha : a.WellFormed) (hb : b.WellFormed) (h : (a == b) = true) :
    (b == a) = true := by
  induction ha generalizing b with
  | int n => rw [int_beq_iff.mp h]; exact int_beq_iff.mpr rfl
  | str s => rw [str_beq_iff.mp h]; exact str_beq_iff.mpr rfl
  | tuple shape _ ih =>
      obtain ⟨u, rfl, htu⟩ := tuple_beq_iff.mp h
      obtain ⟨shape', members'⟩ := wellFormed_tuple_iff.mp hb
      rw [tuple_beq_tuple, Tuple.beq_iff shape' shape]
      rw [Tuple.beq_iff shape shape'] at htu
      exact htu.flip.imp fun b hb a ha hab => ih a ha (members' b hb) hab

/-- Equality of well-formed values is transitive. -/
theorem beq_trans {a b c : Value} (ha : a.WellFormed) (hb : b.WellFormed) (hc : c.WellFormed)
    (hab : (a == b) = true) (hbc : (b == c) = true) : (a == c) = true := by
  induction ha generalizing b c with
  | int n => rwa [int_beq_iff.mp hab] at hbc
  | str s => rwa [str_beq_iff.mp hab] at hbc
  | tuple shape _ ih =>
      obtain ⟨u, rfl, htu⟩ := tuple_beq_iff.mp hab
      obtain ⟨v, rfl, huv⟩ := tuple_beq_iff.mp hbc
      obtain ⟨shape', members'⟩ := wellFormed_tuple_iff.mp hb
      obtain ⟨shape'', members''⟩ := wellFormed_tuple_iff.mp hc
      rw [Tuple.beq_iff shape shape'] at htu
      rw [Tuple.beq_iff shape' shape''] at huv
      rw [tuple_beq_tuple, Tuple.beq_iff shape shape'']
      exact htu.trans huv fun a ha b hb c hc hab hbc =>
        ih a ha (members' b hb) (members'' c hc) hab hbc

/-! ### Agreement -/

/-- Both values are well-formed, and they are equal. -/
structure Agree (a b : Value) : Prop where
  left : a.WellFormed
  right : b.WellFormed
  beq : (a == b) = true

/-- A well-formed value agrees with itself. -/
theorem Agree.refl {a : Value} (ha : a.WellFormed) : Agree a a := ⟨ha, ha, beq_refl ha⟩

/-- Agreement is symmetric. -/
theorem Agree.symm {a b : Value} (h : Agree a b) : Agree b a :=
  ⟨h.right, h.left, beq_symm h.left h.right h.beq⟩

/-- Agreement is transitive. -/
theorem Agree.trans {a b c : Value} (h : Agree a b) (h' : Agree b c) : Agree a c :=
  ⟨h.left, h'.right, beq_trans h.left h.right h'.right h.beq h'.beq⟩

/-- Values that agree give the same verdict. -/
theorem Agree.beq_eq {a a' b b' : Value} (ha : Agree a a') (hb : Agree b b') :
    (a == b) = (a' == b') := by
  rw [Bool.eq_iff_iff]
  constructor
  · intro hab
    exact (ha.symm.trans (Agree.trans ⟨ha.left, hb.left, hab⟩ hb)).beq
  · intro hab
    exact (ha.trans (Agree.trans ⟨ha.right, hb.right, hab⟩ hb.symm)).beq

/-- A number agrees with itself. -/
theorem agree_int (n : Int64) : Agree (int n) (int n) := .refl (.int n)

/-- A string agrees with itself. -/
theorem agree_str (s : String) : Agree (str s) (str s) := .refl (.str s)

/-- Tuples agree exactly when their members do. -/
theorem agree_tuple_iff {t u : Tuple Value} :
    Agree (tuple t) (tuple u) ↔ t.WellFormed ∧ u.WellFormed ∧ Tuple.Rel Agree t u := by
  constructor
  · rintro ⟨ht, hu, hbeq⟩
    obtain ⟨shape, members⟩ := wellFormed_tuple_iff.mp ht
    obtain ⟨shape', members'⟩ := wellFormed_tuple_iff.mp hu
    rw [tuple_beq_tuple, Tuple.beq_iff shape shape'] at hbeq
    exact ⟨shape, shape', hbeq.imp fun a ha b hb hab => ⟨members a ha, members' b hb, hab⟩⟩
  · rintro ⟨shape, shape', h⟩
    refine ⟨.tuple shape ?_, .tuple shape' ?_, ?_⟩
    · exact h.forall_left shape fun a b hab => hab.left
    · exact h.flip.forall_left shape' fun b a hab => hab.right
    · rw [tuple_beq_tuple, Tuple.beq_iff shape shape']
      exact h.imp fun a _ b _ hab => hab.beq

/-- Values that agree are the same number, the same text, or tuples that agree. -/
theorem Agree.cases {a b : Value} (h : Agree a b) :
    (∃ n, a = int n ∧ b = int n) ∨ (∃ s, a = str s ∧ b = str s) ∨
      ∃ t u, a = tuple t ∧ b = tuple u ∧ t.WellFormed ∧ u.WellFormed ∧ Tuple.Rel Agree t u := by
  cases a with
  | int n => exact .inl ⟨n, rfl, int_beq_iff.mp h.beq⟩
  | str s => exact .inr (.inl ⟨s, rfl, str_beq_iff.mp h.beq⟩)
  | tuple t =>
      obtain ⟨u, rfl, -⟩ := tuple_beq_iff.mp h.beq
      exact .inr (.inr ⟨t, u, rfl, rfl, agree_tuple_iff.mp h⟩)

end Value

end TaggedTuple
