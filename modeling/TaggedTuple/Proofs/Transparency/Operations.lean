import TaggedTuple.Proofs.Value.Equality

/-!
# Two runs of an operation on tuples

An operation that is run twice, on values that agree and on two valid caches, gives tuples that
agree or fails in the same way both times. Nothing is asked of the caches but validity, so one may
canonicalize and the other not, and each may declare fields in an order of its own. There is one
lemma for each operation that makes a tuple: `TupleBuilder.Agree.finish`, `Tuple.Agree.withUpdated`,
`Tuple.Agree.slicePositional` and `Tuple.Agree.projectNamed`.

`ExceptRel` compares results, `CachedRel` results that come with a cache.
-/

namespace TaggedTuple

/-! ### Comparing results -/

/-- Both results are values that are related, or both are errors that are related. -/
inductive ExceptRel {ε δ α β : Type} (re : ε → δ → Prop) (r : α → β → Prop) :
    Except ε α → Except δ β → Prop
  | ok {a : α} {b : β} (h : r a b) : ExceptRel re r (.ok a) (.ok b)
  | error {e : ε} {e' : δ} (h : re e e') : ExceptRel re r (.error e) (.error e')

/-- Errors that are equal are of the same kind. -/
theorem ExceptRel.of_eq {ε α β : Type} {re : ε → ε → Prop} {r : α → β → Prop} {x : Except ε α}
    {y : Except ε β} (h : ExceptRel Eq r x y) (hrefl : ∀ e, re e e) : ExceptRel re r x y := by
  cases h with
  | ok h => exact .ok h
  | @error e _ h =>
      subst h
      exact .error (hrefl e)

/-- Related errors may be mapped. -/
theorem ExceptRel.mapError {ε δ α β : Type} {re : ε → ε → Prop} {se : δ → δ → Prop}
    {r : α → β → Prop} {x : Except ε α} {y : Except ε β} (h : ExceptRel re r x y) (f : ε → δ)
    (he : ∀ e e', re e e' → se (f e) (f e')) : ExceptRel se r (x.mapError f) (y.mapError f) := by
  cases h with
  | ok h => exact .ok h
  | error h => exact .error (he _ _ h)

/-- The results are related, and both caches are left valid. -/
structure CachedRel {α β : Type} (r : α → β → Prop) (x : α × LayoutCache) (y : β × LayoutCache) :
    Prop where
  result : r x.1 y.1
  left : x.2.Valid
  right : y.2.Valid

/-- What a computation does with two results that are compared has to be said for related values and
for related errors. -/
@[elab_as_elim]
theorem CachedRel.elim {ε δ α β : Type} {re : ε → δ → Prop} {r : α → β → Prop}
    {motive : Except ε α × LayoutCache → Except δ β × LayoutCache → Prop}
    {x : Except ε α × LayoutCache} {y : Except δ β × LayoutCache}
    (h : CachedRel (ExceptRel re r) x y)
    (ok : ∀ a b (c d : LayoutCache), r a b → c.Valid → d.Valid → motive (.ok a, c) (.ok b, d))
    (error : ∀ e e' (c d : LayoutCache), re e e' → c.Valid → d.Valid →
      motive (.error e, c) (.error e', d)) : motive x y := by
  obtain ⟨result, c⟩ := x
  obtain ⟨result', d⟩ := y
  obtain ⟨hresult, hc, hd⟩ := h
  cases hresult with
  | ok hab => exact ok _ _ c d hab hc hd
  | error he => exact error _ _ c d he hc hd

/-- Errors of the same kind. -/
def TupleError.SameVariant (e e' : TupleError) : Prop := e.ctorIdx = e'.ctorIdx

/-- Equal keys, and values that agree. -/
def EntryAgree {κ : Type} (x y : κ × Value) : Prop := x.1 = y.1 ∧ Value.Agree x.2 y.2

/-! ### Tuples that agree -/

namespace Tuple

/-- The tuples are well-formed and equal. -/
def Agree (t u : Tuple Value) : Prop := Value.Agree (.tuple t) (.tuple u)

/-- The left one of two tuples that agree is well-formed. -/
theorem Agree.left {t u : Tuple Value} (h : t.Agree u) : t.WellFormed :=
  (Value.agree_tuple_iff.mp h).1

/-- The right one of two tuples that agree is well-formed. -/
theorem Agree.right {t u : Tuple Value} (h : t.Agree u) : u.WellFormed :=
  (Value.agree_tuple_iff.mp h).2.1

/-- Tuples that agree have members that do. -/
theorem Agree.rel {t u : Tuple Value} (h : t.Agree u) : Rel Value.Agree t u :=
  (Value.agree_tuple_iff.mp h).2.2

/-- Tuples that hold members that agree do agree. -/
theorem HasMembers.agree {t u : Tuple Value} {tag : Option Symbol} {vs ws : List Value}
    {named named' : Symbol → Option Value} (ht : t.HasMembers tag vs named)
    (hu : u.HasMembers tag ws named') (hpositional : List.Forall₂ Value.Agree vs ws)
    (hnamed : ∀ f, Option.Rel Value.Agree (named f) (named' f)) : t.Agree u :=
  Value.agree_tuple_iff.mpr ⟨ht.wellFormed, hu.wellFormed, ht.rel hu hpositional hnamed⟩

/-- Tuples that agree have the same arity. -/
theorem Agree.arity_eq {t u : Tuple Value} (h : t.Agree u) : t.arity = u.arity :=
  arity_eq_of_positional h.rel.positional h.left h.right

/-- Tuples that agree have the same fields. -/
theorem Agree.mem_fields_iff {t u : Tuple Value} (h : t.Agree u) {f : Symbol} :
    f ∈ t.layout.fields ↔ f ∈ u.layout.fields :=
  (h.rel.fields_perm h.left h.right).mem_iff

/-! ### Updates -/

/-- Updates of tuples that agree do so too. -/
theorem Agree.withUpdated {t u : Tuple Value} (h : t.Agree u) (key : TupleKey) {v w : Value}
    (hvw : v.Agree w) : ExceptRel Eq Agree (t.withUpdated key v) (u.withUpdated key w) := by
  cases key with
  | index i =>
      rcases withUpdated_index_cases h.left v i with ⟨hi, t', ht, -, hmembers⟩ | ⟨hi, ht⟩
      · rcases withUpdated_index_cases h.right w i with ⟨-, u', hu, -, hmembers'⟩ | ⟨hi', -⟩
        · rw [ht, hu]
          rw [h.rel.tag_eq] at hmembers
          exact .ok (hmembers.agree hmembers' (forall₂_set h.rel.positional i hvw) h.rel.field)
        · rw [h.arity_eq] at hi
          exact absurd hi (Nat.not_lt.mpr hi')
      · rcases withUpdated_index_cases h.right w i with ⟨hi', -⟩ | ⟨-, hu⟩
        · rw [h.arity_eq] at hi
          exact absurd hi' (Nat.not_lt.mpr hi)
        · rw [ht, hu, h.arity_eq]
          exact .error rfl
  | field f =>
      rcases withUpdated_field_cases h.left v f with ⟨hf, t', ht, -, hmembers⟩ | ⟨hf, ht⟩
      · rcases withUpdated_field_cases h.right w f with ⟨-, u', hu, -, hmembers'⟩ | ⟨hf', -⟩
        · rw [ht, hu]
          rw [h.rel.tag_eq] at hmembers
          refine .ok (hmembers.agree hmembers' h.rel.positional fun g => ?_)
          split_ifs
          · exact .some hvw
          · exact h.rel.field g
        · exact absurd (h.mem_fields_iff.mp hf) hf'
      · rcases withUpdated_field_cases h.right w f with ⟨hf', -⟩ | ⟨-, hu⟩
        · exact absurd (h.mem_fields_iff.mpr hf') hf
        · rw [ht, hu]
          exact .error rfl

/-! ### Parts -/

/-- Slices of tuples that agree do so too. -/
theorem Agree.slicePositional {t u : Tuple Value} (h : t.Agree u) (start stop : Nat)
    {c d : LayoutCache} (hc : c.Valid) (hd : d.Valid) :
    CachedRel (ExceptRel Eq Agree) (t.slicePositional start stop c)
      (u.slicePositional start stop d) := by
  have hlength := h.rel.positional.length_eq
  rcases t.slicePositional_cases start stop hc with
    ⟨hle, hle', t', c', ht, hc', hmembers⟩ | ⟨hrange, ht⟩
  · rcases u.slicePositional_cases start stop hd with
      ⟨-, -, u', d', hu, hd', hmembers'⟩ | ⟨hrange, -⟩
    · rw [ht, hu]
      refine ⟨.ok (hmembers.agree hmembers' ?_ fun _ => .none), hc', hd'⟩
      exact List.forall₂_drop start (List.forall₂_take stop h.rel.positional)
    · rw [← hlength] at hrange
      exact absurd ⟨hle, hle'⟩ hrange
  · rcases u.slicePositional_cases start stop hd with ⟨hle, hle', -⟩ | ⟨-, hu⟩
    · rw [hlength] at hrange
      exact absurd ⟨hle, hle'⟩ hrange
    · rw [ht, hu, h.arity_eq]
      exact ⟨.error rfl, hc, hd⟩

/-- The fields may be asked for in two orders. Then, and on two layouts, another field may be the
first one that is missing, so only the kind of the error is the same. -/
theorem Agree.projectNamed {t u : Tuple Value} (h : t.Agree u) {fields fields' : List Symbol}
    (hperm : fields.Perm fields') {c d : LayoutCache} (hc : c.Valid) (hd : d.Valid) :
    CachedRel (ExceptRel TupleError.SameVariant Agree) (t.projectNamed fields c)
      (u.projectNamed fields' d) := by
  have hnone : ∀ f, t.field? f = none ↔ u.field? f = none := fun f =>
    eq_none_iff_of_rel (h.rel.field f)
  rcases t.projectNamed_cases fields hc with
    ⟨f, hf, ht⟩ | ⟨hnodup, f, hf, hmissing, c', ht, hc'⟩ | ⟨hnodup, hall, t', c', ht, hc', hmembers⟩
  · rcases u.projectNamed_cases fields' hd with ⟨f', -, hu⟩ | ⟨hnodup, -⟩ | ⟨hnodup, -⟩
    · rw [ht, hu]
      exact ⟨.error rfl, hc, hd⟩
    · exact absurd (hperm.nodup_iff.mpr hnodup) (not_nodup_of_repeatedField? hf)
    · exact absurd (hperm.nodup_iff.mpr hnodup) (not_nodup_of_repeatedField? hf)
  · rcases u.projectNamed_cases fields' hd with
      ⟨f', hf', -⟩ | ⟨-, f', -, -, d', hu, hd'⟩ | ⟨-, hall, -⟩
    · exact absurd (hperm.nodup_iff.mp hnodup) (not_nodup_of_repeatedField? hf')
    · rw [ht, hu]
      exact ⟨.error rfl, hc', hd'⟩
    · have hsome := hall f (hperm.subset hf)
      rw [(hnone f).mp hmissing] at hsome
      cases hsome
  · rcases u.projectNamed_cases fields' hd with
      ⟨f', hf', -⟩ | ⟨-, f', hf', hmissing, -⟩ | ⟨-, -, u', d', hu, hd', hmembers'⟩
    · exact absurd (hperm.nodup_iff.mp hnodup) (not_nodup_of_repeatedField? hf')
    · have hsome := hall f' (hperm.symm.subset hf')
      rw [(hnone f').mpr hmissing] at hsome
      cases hsome
    · rw [ht, hu]
      refine ⟨.ok (hmembers.agree hmembers' .nil fun f => ?_), hc', hd'⟩
      simp only [hperm.mem_iff]
      split_ifs
      · exact h.rel.field f
      · exact .none

end Tuple

/-! ### Literals -/

namespace TupleBuilder

/-- Builders with equal tags and fields, and entries that agree. -/
structure Agree (b b' : TupleBuilder Value) : Prop where
  tag_eq : b.tag = b'.tag
  positional : List.Forall₂ Value.Agree b.positional b'.positional
  named : List.Forall₂ EntryAgree b.named b'.named

/-- Builders that agree make tuples that do. -/
theorem Agree.finish {b b' : TupleBuilder Value} (h : b.Agree b') {c d : LayoutCache}
    (hc : c.Valid) (hd : d.Valid) :
    CachedRel (ExceptRel Eq Tuple.Agree) (b.finish c) (b'.finish d) := by
  have hkeys := (forall₂_pairs_iff.mp h.named).1
  rcases b.finish_cases hc with ⟨f, hf, hb⟩ | ⟨hnodup, t, c', hb, hc', hmembers⟩
  · rcases b'.finish_cases hd with ⟨f', hf', hb'⟩ | ⟨hnodup, -⟩
    · rw [hb, hb']
      rw [hkeys, hf'] at hf
      cases hf
      exact ⟨.error rfl, hc, hd⟩
    · rw [← hkeys] at hnodup
      exact absurd hnodup (not_nodup_of_repeatedField? hf)
  · rcases b'.finish_cases hd with ⟨f', hf', -⟩ | ⟨-, u, d', hb', hd', hmembers'⟩
    · rw [hkeys] at hnodup
      exact absurd hnodup (not_nodup_of_repeatedField? hf')
    · rw [hb, hb']
      rw [h.tag_eq] at hmembers
      exact ⟨.ok (hmembers.agree hmembers' h.positional (lookup_rel h.named)),
        hc', hd'⟩

end TupleBuilder

end TaggedTuple
