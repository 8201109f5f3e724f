import TaggedTuple.Proofs.Tuple.Built

/-!
# What an update changes

An update succeeds at the address of every member (`exists_withUpdated`). It keeps the layout
instance, puts the new value in the place of the old one and leaves all other members as they are
(`updatedAt_of_withUpdated`).
-/

namespace TaggedTuple

namespace Tuple

variable {α β : Type} {t u : Tuple α} {key : TupleKey} {a : α}

/-- Reading from a mapped tuple maps what is read. -/
theorem getKey_map (g : α → β) (t : Tuple α) (key : TupleKey) :
    (t.map g).getKey key = (t.getKey key).map g := by
  cases key with
  | index i =>
      simp only [getKey, get, at?, arity_map, positional_map, List.getElem?_map]
      split_ifs
      · cases t.positional[i]? <;> rfl
      · rfl
  | field f =>
      simp only [getKey, getField, field?_map]
      cases t.field? f <;> rfl

/-- The second tuple is the first one with the value `a` at an address. -/
structure UpdatedAt (t u : Tuple α) (key : TupleKey) (a : α) : Prop where
  wellFormed : u.WellFormed
  shared_eq : u.shared = t.shared
  getKey_self : u.getKey key = .ok a
  getKey_other : ∀ other, other ≠ key → u.getKey other = t.getKey other

section update

variable (ht : t.WellFormed)
include ht

/-- What can be read can be replaced. -/
theorem exists_withUpdated (ha : t.getKey key = .ok a) (b : α) :
    ∃ u, t.withUpdated key b = .ok u := by
  cases key with
  | index i =>
      rcases withUpdated_index_cases ht b i with ⟨-, u, hu, -⟩ | ⟨hi, -⟩
      · exact ⟨u, hu⟩
      · have hlt : i < t.positional.length :=
          (List.getElem?_eq_some_iff.mp (ht.getKey_index_eq_ok_iff.mp ha)).1
        have harity : t.positional.length = t.arity := ht.positional_length
        omega
  | field f =>
      rcases withUpdated_field_cases ht b f with ⟨-, u, hu, -⟩ | ⟨hf, -⟩
      · exact ⟨u, hu⟩
      · rw [← ht.field?_eq_none_iff] at hf
        cases hf.symm.trans (getKey_field_eq_ok_iff.mp ha)

/-- Reading a positional member depends on the layout and on that slot only. -/
theorem get_eq_of_getElem?_eq (hu : u.WellFormed) (hshared : u.shared = t.shared) {i : Nat}
    (h : u.positional[i]? = t.positional[i]?) : u.get i = t.get i := by
  have harity : u.arity = t.arity := by rw [arity, arity, layout, layout, hshared]
  unfold get
  rw [ht.at?_eq, hu.at?_eq, h, harity]

/-- An update changes the member at its address and nothing else. -/
theorem updatedAt_of_withUpdated (h : t.withUpdated key a = .ok u) : t.UpdatedAt u key a := by
  cases key with
  | index i =>
      rcases withUpdated_index_cases ht a i with ⟨hi, v, hv, hshared, hmembers⟩ | ⟨-, herror⟩
      · obtain rfl : v = u := Except.ok.inj (hv.symm.trans h)
        have hwf := hmembers.wellFormed
        refine ⟨hwf, hshared, ?_, fun other hne => ?_⟩
        · rw [hwf.getKey_index_eq_ok_iff, hmembers.positional_eq]
          apply List.getElem?_set_self
          rw [ht.positional_length]
          exact hi
        · cases other with
          | field f => simp only [getKey, getField, hmembers.field?_eq]
          | index j =>
              have hij : i ≠ j := fun hij => hne (congrArg TupleKey.index hij.symm)
              apply get_eq_of_getElem?_eq ht hwf hshared
              rw [hmembers.positional_eq, List.getElem?_set_ne hij]
      · cases herror.symm.trans h
  | field f =>
      rcases withUpdated_field_cases ht a f with ⟨-, v, hv, hshared, hmembers⟩ | ⟨-, herror⟩
      · obtain rfl : v = u := Except.ok.inj (hv.symm.trans h)
        have hwf := hmembers.wellFormed
        refine ⟨hwf, hshared, ?_, fun other hne => ?_⟩
        · rw [getKey_field_eq_ok_iff, hmembers.field?_eq, if_pos rfl]
        · cases other with
          | index j =>
              apply get_eq_of_getElem?_eq ht hwf hshared
              rw [hmembers.positional_eq]
          | field g =>
              have hgf : g ≠ f := fun hgf => hne (congrArg TupleKey.field hgf)
              simp only [getKey, getField, hmembers.field?_eq, if_neg hgf]
      · cases herror.symm.trans h

end update

end Tuple

end TaggedTuple
