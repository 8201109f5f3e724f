import TaggedTuple.Proofs.Transparency.Operations
import TaggedTuple.Proofs.Tuple.Extensionality
import TaggedTuple.Proofs.Tuple.Update

/-!
# Updates are a lens on the members

An update writes at an address what reading at that address reads. The laws come from two facts:
what `UpdatedAt` says of the members after an update, and that on one layout instance a tuple is
determined by what is read at all addresses (`eq_of_getKey_eq`). So a law of two sequences of
updates is shown by reading both results at every address.

`withUpdated_lawful_lens` states the laws, and that equal tuples stay equal under equal updates.
-/

namespace TaggedTuple

namespace Tuple

variable {α : Type} {t u v : Tuple α} {key other : TupleKey} {a b : α}

/-! ### Reading at every address -/

/-- Reading at an index fails outside of the arity. -/
theorem WellFormed.getKey_index_eq_error_iff (ht : t.WellFormed) {i : Nat} {e : TupleError} :
    t.getKey (.index i) = .error e ↔ t.arity ≤ i ∧ e = .indexOutOfRange i t.arity := by
  have hnone : t.at? i = none ↔ t.arity ≤ i := by
    rw [ht.at?_eq, List.getElem?_eq_none_iff, ht.positional_length]
    rfl
  rw [← hnone]
  show t.get i = .error e ↔ _
  unfold get
  cases t.at? i <;> simp [eq_comm]

/-- Reading at a field fails when the layout does not have it. -/
theorem WellFormed.getKey_field_eq_error_iff (ht : t.WellFormed) {f : Symbol} {e : TupleError} :
    t.getKey (.field f) = .error e ↔ f ∉ t.layout.fields ∧ e = .unknownField f := by
  rw [← ht.field?_eq_none_iff]
  exact getField_eq_error_iff

/-- Tuples on one layout instance that read the same everywhere are the same. -/
theorem eq_of_getKey_eq (ht : t.WellFormed) (hu : u.WellFormed) (hshared : t.shared = u.shared)
    (h : ∀ key, t.getKey key = u.getKey key) : t = u := by
  apply eq_of_field?_eq ht hu hshared
  · apply List.ext_getElem?
    intro i
    apply Option.ext
    intro a
    rw [← ht.getKey_index_eq_ok_iff, ← hu.getKey_index_eq_ok_iff, h]
  · intro f
    apply Option.ext
    intro a
    rw [← getKey_field_eq_ok_iff, ← getKey_field_eq_ok_iff, h]

/-! ### Updates described by reading -/

/-- An update keeps the layout. -/
theorem UpdatedAt.layout_eq (h : t.UpdatedAt u key a) : u.layout = t.layout :=
  congrArg SharedLayout.layout h.shared_eq

/-- Putting back what is there changes nothing. -/
theorem UpdatedAt.refl (ht : t.WellFormed) (ha : t.getKey key = .ok a) : t.UpdatedAt t key a :=
  ⟨ht, rfl, ha, fun _ _ => rfl⟩

/-- What an update leaves is determined. -/
theorem UpdatedAt.unique (hu : t.UpdatedAt u key a) (hv : t.UpdatedAt v key a) : u = v := by
  apply eq_of_getKey_eq hu.wellFormed hv.wellFormed (hu.shared_eq.trans hv.shared_eq.symm)
  intro other
  by_cases hother : other = key
  · rw [hother, hu.getKey_self, hv.getKey_self]
  · rw [hu.getKey_other other hother, hv.getKey_other other hother]

/-- The later of two updates at one address is all that shows. -/
theorem UpdatedAt.trans (hu : t.UpdatedAt u key a) (hv : u.UpdatedAt v key b) :
    t.UpdatedAt v key b where
  wellFormed := hv.wellFormed
  shared_eq := hv.shared_eq.trans hu.shared_eq
  getKey_self := hv.getKey_self
  getKey_other other hother :=
    (hv.getKey_other other hother).trans (hu.getKey_other other hother)

/-- Updates at two addresses lead to the same tuple in either order. -/
theorem UpdatedAt.comm {x y : Tuple α} (hne : other ≠ key) (hu : t.UpdatedAt u key a)
    (hx : u.UpdatedAt x other b) (hv : t.UpdatedAt v other b) (hy : v.UpdatedAt y key a) :
    x = y := by
  have hshared : x.shared = y.shared := by
    rw [hx.shared_eq, hu.shared_eq, hy.shared_eq, hv.shared_eq]
  apply eq_of_getKey_eq hx.wellFormed hy.wellFormed hshared
  intro k
  by_cases hother : k = other
  · rw [hother, hx.getKey_self, hy.getKey_other other hne, hv.getKey_self]
  · rw [hx.getKey_other k hother]
    by_cases hkey : k = key
    · rw [hkey, hu.getKey_self, hy.getKey_self]
    · rw [hu.getKey_other k hkey, hy.getKey_other k hkey, hv.getKey_other k hother]

/-! ### The laws of updates -/

section laws

variable (ht : t.WellFormed)
include ht

/-- An update fails as reading there does. -/
theorem withUpdated_eq_error_iff {e : TupleError} :
    t.withUpdated key a = .error e ↔ t.getKey key = .error e := by
  cases key with
  | index i =>
      rw [ht.getKey_index_eq_error_iff]
      rcases withUpdated_index_cases ht a i with ⟨hi, u, hu, -⟩ | ⟨hi, herror⟩
      · rw [hu]
        exact ⟨nofun, fun h => absurd hi (Nat.not_lt.mpr h.1)⟩
      · rw [herror, Except.error.injEq]
        exact ⟨fun h => ⟨hi, h.symm⟩, fun h => h.2.symm⟩
  | field f =>
      rw [ht.getKey_field_eq_error_iff]
      rcases withUpdated_field_cases ht a f with ⟨hf, u, hu, -⟩ | ⟨hf, herror⟩
      · rw [hu]
        exact ⟨nofun, fun h => absurd hf h.1⟩
      · rw [herror, Except.error.injEq]
        exact ⟨fun h => ⟨hf, h.symm⟩, fun h => h.2.symm⟩

/-- An update succeeds where reading does, and fails with the same error elsewhere. -/
theorem map_withUpdated_eq (key : TupleKey) (a : α) :
    (t.withUpdated key a).map (fun _ => ()) = (t.getKey key).map fun _ => () := by
  cases hget : t.getKey key with
  | error e =>
      rw [(withUpdated_eq_error_iff ht).mpr hget]
      rfl
  | ok b =>
      obtain ⟨u, hu⟩ := exists_withUpdated ht hget a
      rw [hu]
      rfl

/-- Putting back what is there changes nothing. -/
theorem withUpdated_self (ha : t.getKey key = .ok a) : t.withUpdated key a = .ok t := by
  obtain ⟨u, hu⟩ := exists_withUpdated ht ha a
  rw [hu, (updatedAt_of_withUpdated ht hu).unique (.refl ht ha)]

/-- The second update of one member wins. -/
theorem withUpdated_withUpdated (hu : t.withUpdated key a = .ok u) (b : α) :
    u.withUpdated key b = t.withUpdated key b := by
  have hta := updatedAt_of_withUpdated ht hu
  obtain ⟨v, hv⟩ := exists_withUpdated hta.wellFormed hta.getKey_self b
  cases htb : t.withUpdated key b with
  | error e =>
      rw [withUpdated_eq_error_iff ht, ← withUpdated_eq_error_iff ht (a := a), hu] at htb
      cases htb
  | ok w =>
      have hub := updatedAt_of_withUpdated hta.wellFormed hv
      rw [hv, (hta.trans hub).unique (updatedAt_of_withUpdated ht htb)]

/-- What updates at two addresses lead to in one order, they lead to in the other. -/
theorem withUpdated_comm (hne : other ≠ key) {x : Tuple α}
    (h : (t.withUpdated key a >>= fun u => u.withUpdated other b) = .ok x) :
    (t.withUpdated other b >>= fun u => u.withUpdated key a) = .ok x := by
  obtain ⟨u, hu, hx⟩ : ∃ u, t.withUpdated key a = .ok u ∧ u.withUpdated other b = .ok x := by
    cases hu : t.withUpdated key a with
    | error e =>
        rw [hu] at h
        cases h
    | ok u =>
        rw [hu] at h
        exact ⟨u, rfl, h⟩
  have hta := updatedAt_of_withUpdated ht hu
  have hub := updatedAt_of_withUpdated hta.wellFormed hx
  -- the update at the other address reads there what it reads after the first update
  cases hv : t.withUpdated other b with
  | error e =>
      rw [withUpdated_eq_error_iff ht, ← hta.getKey_other other hne,
        ← withUpdated_eq_error_iff hta.wellFormed (a := b), hx] at hv
      cases hv
  | ok v =>
      have htb := updatedAt_of_withUpdated ht hv
      cases hy : v.withUpdated key a with
      | error e =>
          rw [withUpdated_eq_error_iff htb.wellFormed, htb.getKey_other key hne.symm,
            ← withUpdated_eq_error_iff ht (a := a), hu] at hy
          cases hy
      | ok y =>
          have hva := updatedAt_of_withUpdated htb.wellFormed hy
          rw [hta.comm hne hub htb hva]
          exact hy

end laws

/-! ### Equal tuples -/

section same

variable [BEq α] {t' u' : Tuple α} {a' : α}

/-- What has the same members fails to be read in the same way. -/
theorem SameMembers.getKey_eq_error_iff (h : SameMembers t t') (ht : t.WellFormed)
    (ht' : t'.WellFormed) {e : TupleError} :
    t.getKey key = .error e ↔ t'.getKey key = .error e := by
  cases key with
  | index i => rw [ht.getKey_index_eq_error_iff, ht'.getKey_index_eq_error_iff, h.arity]
  | field f => rw [ht.getKey_field_eq_error_iff, ht'.getKey_field_eq_error_iff, h.fields]

/-- Equal updates keep the same members. -/
theorem SameMembers.updatedAt (h : SameMembers t t') (haa' : (a == a') = true)
    (hu : t.UpdatedAt u key a) (hu' : t'.UpdatedAt u' key a') : SameMembers u u' where
  tag := by
    rw [Tuple.tag, Tuple.tag, hu.layout_eq, hu'.layout_eq]
    exact h.tag
  arity := by
    rw [Tuple.arity, Tuple.arity, hu.layout_eq, hu'.layout_eq]
    exact h.arity
  fields := by
    rw [hu.layout_eq, hu'.layout_eq]
    exact h.fields
  member other b b' hb hb' := by
    by_cases hother : other = key
    · rw [hother, hu.getKey_self] at hb
      rw [hother, hu'.getKey_self] at hb'
      rwa [← Except.ok.inj hb, ← Except.ok.inj hb']
    · rw [hu.getKey_other other hother] at hb
      rw [hu'.getKey_other other hother] at hb'
      exact h.member other b b' hb hb'

/-- Equal updates of equal tuples are equal. -/
theorem withUpdated_rel (ht : t.WellFormed) (ht' : t'.WellFormed) (h : (t == t') = true)
    (haa' : (a == a') = true) (key : TupleKey) :
    ExceptRel Eq (fun u u' => (u == u') = true) (t.withUpdated key a) (t'.withUpdated key a') := by
  rw [beq_iff_sameMembers ht ht'] at h
  have herrors : ∀ e, t.withUpdated key a = .error e ↔ t'.withUpdated key a' = .error e := by
    intro e
    rw [withUpdated_eq_error_iff ht, withUpdated_eq_error_iff ht', h.getKey_eq_error_iff ht ht']
  cases hu : t.withUpdated key a with
  | error e =>
      rw [(herrors e).mp hu]
      exact .error rfl
  | ok u =>
      cases hu' : t'.withUpdated key a' with
      | error e =>
          rw [(herrors e).mpr hu'] at hu
          cases hu
      | ok u' =>
          have hta := updatedAt_of_withUpdated ht hu
          have hta' := updatedAt_of_withUpdated ht' hu'
          apply ExceptRel.ok
          rw [beq_iff_sameMembers hta.wellFormed hta'.wellFormed]
          exact h.updatedAt haa' hta hta'

end same

/-- Updates are a lens. An update succeeds exactly at the addresses that can be read and fails with
the error of reading at all others. It keeps the layout instance, the new value is read at its
address, and all other addresses read as before. Putting back what was read changes nothing, the
later of two updates at one address is all that shows, and the order of updates at two addresses
makes no difference. Equal updates of equal tuples are equal. -/
theorem withUpdated_lawful_lens [BEq α] (ht : t.Built) (key : TupleKey) (a : α) :
    ((t.withUpdated key a).map (fun _ => ()) = (t.getKey key).map fun _ => ()) ∧
    (∀ u, t.withUpdated key a = .ok u → u.shared = t.shared ∧ u.getKey key = .ok a ∧
      (∀ other, other ≠ key → u.getKey other = t.getKey other) ∧
        ∀ b, u.withUpdated key b = t.withUpdated key b) ∧
    (t.getKey key = .ok a → t.withUpdated key a = .ok t) ∧
    (∀ other b x, other ≠ key →
      ((t.withUpdated key a >>= fun u => u.withUpdated other b) = .ok x ↔
        (t.withUpdated other b >>= fun u => u.withUpdated key a) = .ok x)) ∧
    ∀ t' a', t'.Built → (t == t') = true → (a == a') = true →
      ExceptRel Eq (fun u u' => (u == u') = true) (t.withUpdated key a)
        (t'.withUpdated key a') := by
  simp only [built_iff] at ht ⊢
  refine ⟨map_withUpdated_eq ht key a, fun u hu => ?_, withUpdated_self ht,
    fun other b x hne => ⟨withUpdated_comm ht hne, withUpdated_comm ht hne.symm⟩,
    fun t' a' ht' h haa' => withUpdated_rel ht ht' h haa' key⟩
  have hupdated := updatedAt_of_withUpdated ht hu
  exact ⟨hupdated.shared_eq, hupdated.getKey_self, hupdated.getKey_other,
    withUpdated_withUpdated ht hu⟩

/-- A record and its equal with the fields declared the other way around: updated at one field, then
at the other, and at an index, which it has none of. -/
theorem withUpdated_lawful_lens_of_reordered_fields :
    let t : Tuple Nat := ⟨⟨0, 0, .ascendingPair 0⟩, [], [10, 20]⟩
    let u : Tuple Nat := ⟨⟨0, 0, .ascendingPair 0⟩, [], [11, 20]⟩
    let x : Tuple Nat := ⟨⟨0, 0, .ascendingPair 0⟩, [], [11, 21]⟩
    let t' : Tuple Nat := ⟨⟨0, 1, .descendingPair 0⟩, [], [20, 10]⟩
    (t.withUpdated (.field ⟨1⟩) 11 = .ok u ∧ u.getKey (.field ⟨2⟩) = t.getKey (.field ⟨2⟩)) ∧
      (t.withUpdated (.field ⟨2⟩) 21 >>= fun v => v.withUpdated (.field ⟨1⟩) 11) = .ok x ∧
      t.withUpdated (.field ⟨1⟩) 10 = .ok t ∧
      ExceptRel Eq (fun u u' => (u == u') = true) (t.withUpdated (.field ⟨1⟩) 11)
        (t'.withUpdated (.field ⟨1⟩) 11) ∧
      (t.withUpdated (.index 0) 5).map (fun _ => ()) = .error (.indexOutOfRange 0 0) := by
  intro t u x t'
  have ht : t.Built := built_iff.mpr ⟨rfl, rfl⟩
  have ht' : t'.Built := built_iff.mpr ⟨rfl, rfl⟩
  have hu : t.withUpdated (.field ⟨1⟩) 11 = .ok u := by with_unfolding_all rfl
  have hx : u.withUpdated (.field ⟨2⟩) 21 = .ok x := by with_unfolding_all rfl
  obtain ⟨-, hupdate, -, hcomm, hequal⟩ := withUpdated_lawful_lens ht (.field ⟨1⟩) 11
  obtain ⟨-, -, hself, -⟩ := withUpdated_lawful_lens ht (.field ⟨1⟩) 10
  obtain ⟨hindex, -⟩ := withUpdated_lawful_lens ht (.index 0) 5
  obtain ⟨-, -, hother, -⟩ := hupdate u hu
  refine ⟨⟨hu, hother _ (by decide)⟩, (hcomm (.field ⟨2⟩) 21 x (by decide)).mp ?_,
    hself (by with_unfolding_all rfl), hequal t' 11 ht' (by decide) rfl, hindex⟩
  rw [hu]
  exact hx

end Tuple

end TaggedTuple
