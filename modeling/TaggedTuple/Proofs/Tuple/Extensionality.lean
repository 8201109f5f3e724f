import TaggedTuple.Proofs.Tuple.Construction
import TaggedTuple.Proofs.Tuple.Equality

/-!
# Equality of tuples, read from outside

Equality of tuples holds exactly when the two cannot be told apart by reading them: same tag, same
number of positional members, same fields, and equal members at every address
(`beq_iff_sameMembers`). Nothing is asked of the equality of members for that; it need not even be
reflexive.

`Tuple.equalByField` is the comparison that never uses the layout instance. Equality always gives
its verdict (`beq_eq_equalByField`), and so does the comparison of the stored values where the
instance is shared (`members_beq_eq_equalByField`).

`EqualityOn` says that equality is an equivalence relation on some elements. Tuples inherit it from
their members (`Tuple.equalityOn`), and they inherit from them that equal ones have the same feed
(`hashFeed_map_eq_of_beq`).
-/

namespace TaggedTuple

variable {α : Type}

/-- Equality is an equivalence relation on the elements with a property. -/
structure EqualityOn [BEq α] (P : α → Prop) : Prop where
  refl : ∀ {a : α}, P a → (a == a) = true
  symm : ∀ {a b : α}, P a → P b → (a == b) = true → (b == a) = true
  trans : ∀ {a b c : α}, P a → P b → P c → (a == b) = true → (b == c) = true → (a == c) = true

/-- Lists are equal when their elements are, one by one. -/
theorem list_beq_iff [BEq α] {as bs : List α} :
    (as == bs) = true ↔ List.Forall₂ (fun a b => (a == b) = true) as bs := by
  induction as generalizing bs with
  | nil => cases bs <;> simp
  | cons a as ih => cases bs <;> simp [ih]

namespace Tuple

/-! ### The same members at the same addresses -/

/-- The tuples have the same tag, the same positional count and the same fields, and their members
are equal wherever both are read. -/
structure SameMembers [BEq α] (t u : Tuple α) : Prop where
  tag : t.tag = u.tag
  arity : t.arity = u.arity
  fields : ∀ f, f ∈ t.layout.fields ↔ f ∈ u.layout.fields
  member : ∀ key a b, t.getKey key = .ok a → u.getKey key = .ok b → (a == b) = true

section beq

variable [BEq α] {t u : Tuple α} (ht : t.WellFormed) (hu : u.WellFormed)
include ht hu

/-- Tuples related by equality have the same members. -/
theorem Rel.sameMembers (h : Rel (fun a b => (a == b) = true) t u) : SameMembers t u where
  tag := h.tag_eq
  arity := arity_eq_of_positional h.positional ht hu
  fields f := (h.fields_perm ht hu).mem_iff
  member key a b ha hb := by
    cases key with
    | index i =>
        rw [getKey_index_eq_ok_iff, ht.at?_eq] at ha
        rw [getKey_index_eq_ok_iff, hu.at?_eq] at hb
        have hrel := forall₂_getElem? h.positional i
        rwa [ha, hb, Option.rel_some_some] at hrel
    | field f =>
        rw [getKey_field_eq_ok_iff] at ha hb
        have hrel := h.field f
        rwa [ha, hb, Option.rel_some_some] at hrel

/-- Tuples with the same members are related by equality. -/
theorem SameMembers.rel (h : SameMembers t u) : Rel (fun a b => (a == b) = true) t u where
  tag_eq := h.tag
  positional := by
    have hlength : t.positional.length = u.positional.length := by
      rw [ht.positional_length, hu.positional_length]
      exact h.arity
    refine List.forall₂_iff_zip.mpr ⟨hlength, fun {a b} hmem => ?_⟩
    obtain ⟨i, hi⟩ := List.mem_iff_getElem?.mp hmem
    obtain ⟨ha, hb⟩ := List.getElem?_zip_eq_some.mp hi
    apply h.member (.index i) a b
    · rwa [getKey_index_eq_ok_iff, ht.at?_eq]
    · rwa [getKey_index_eq_ok_iff, hu.at?_eq]
  field f := by
    have hsome : (t.field? f).isSome = true ↔ (u.field? f).isSome = true := by
      rw [ht.isSome_field?_iff, hu.isSome_field?_iff]
      exact h.fields f
    cases ha : t.field? f with
    | none =>
        have hnone : u.field? f = none := by simpa [ha] using hsome
        rw [hnone]
        exact .none
    | some a =>
        obtain ⟨b, hb⟩ := Option.isSome_iff_exists.mp (hsome.mp (by simp [ha]))
        rw [hb]
        exact .some (h.member (.field f) a b (getKey_field_eq_ok_iff.mpr ha)
          (getKey_field_eq_ok_iff.mpr hb))

/-- Well-formed tuples are equal exactly when they have the same members. -/
theorem beq_iff_sameMembers : (t == u) = true ↔ SameMembers t u := by
  rw [beq_iff ht hu]
  exact ⟨Rel.sameMembers ht hu, SameMembers.rel ht hu⟩

end beq

/-! ### The very same members -/

/-- The tuples have the same tag, and not only equal but the very same members. Then they are equal,
unless some member differs from itself. -/
structure Coincides [BEq α] (t u : Tuple α) : Prop where
  rel : Rel (· = ·) t u
  beq : (∀ a ∈ t.members, (a == a) = true) → (t == u) = true

/-- What tuples hold determines them up to their layout instances. -/
theorem HasMembers.coincides [BEq α] {t u : Tuple α} {tag : Option Symbol} {positional : List α}
    {named : Symbol → Option α} (ht : t.HasMembers tag positional named)
    (hu : u.HasMembers tag positional named) : t.Coincides u := by
  have hrel : Rel (· = ·) t u :=
    ht.rel hu (List.forall₂_same.mpr fun _ _ => rfl) fun f => optionRel_refl fun _ _ => rfl
  refine ⟨hrel, fun hrefl => ?_⟩
  rw [beq_iff ht.wellFormed hu.wellFormed]
  refine hrel.imp fun a ha b _ hab => ?_
  rw [← hab]
  exact hrefl a ha

/-! ### The comparison by field -/

/-- Compares the shapes, the positional members, and the named members in ascending order of their
fields, whatever instances the layouts are. -/
def equalByField [BEq α] (t u : Tuple α) : Bool :=
  t.layout.sameShape u.layout && t.positional == u.positional
    && (t.namedAscending.zip u.namedAscending).all fun (x, y) => x.2 == y.2

section byField

variable [BEq α] {t u : Tuple α} (ht : t.WellFormed) (hu : u.WellFormed)
include ht hu

/-- The comparison by field decides the relation of tuples. -/
theorem equalByField_iff : t.equalByField u = true ↔ Rel (fun a b => (a == b) = true) t u := by
  simp only [equalByField, Bool.and_eq_true, List.all_eq_true, list_beq_iff]
  have hnamed : (∀ x ∈ t.namedAscending.zip u.namedAscending, (x.1.2 == x.2.2) = true) ↔
      ∀ x ∈ (t.namedAscending.map Prod.snd).zip (u.namedAscending.map Prod.snd),
        (x.1 == x.2) = true := by
    rw [List.zip_map, List.forall_mem_map]
    rfl
  rw [hnamed]
  constructor
  · rintro ⟨⟨hshape, hpositional⟩, hmembers⟩
    obtain ⟨-, htag, hfields⟩ := Layout.sameShape_iff.mp hshape
    refine ⟨htag, hpositional, (forall₂_namedAscending_iff hfields ht hu).mp ?_⟩
    refine List.forall₂_iff_zip.mpr ⟨?_, fun hmem => hmembers _ hmem⟩
    rw [List.length_map, List.length_map, ht.length_namedAscending, hu.length_namedAscending,
      hfields.length_eq]
  · intro h
    refine ⟨⟨h.sameShape ht hu, h.positional⟩, fun x hx => ?_⟩
    have hforall := (forall₂_namedAscending_iff (h.fields_perm ht hu) ht hu).mpr h.field
    exact (List.forall₂_iff_zip.mp hforall).2 hx

/-- Equality gives the verdict of the comparison by field. -/
theorem beq_eq_equalByField : (t == u) = t.equalByField u := by
  rw [Bool.eq_iff_iff, beq_iff ht hu, equalByField_iff ht hu]

/-- On one layout instance, so does the comparison of the members as they are stored. -/
theorem members_beq_eq_equalByField (hshared : t.shared = u.shared) :
    (t.members == u.members) = t.equalByField u := by
  have hlayout : t.layout = u.layout := congrArg SharedLayout.layout hshared
  have hlength : t.positional.length = u.positional.length := by
    rw [ht.positional_length, hu.positional_length, hlayout]
  rw [Bool.eq_iff_iff, equalByField_iff ht hu, list_beq_iff]
  constructor
  · intro h
    have hpositional : List.Forall₂ (fun a b => (a == b) = true) t.positional u.positional := by
      simpa [members, ← hlength] using List.forall₂_take_append _ _ _ h
    have hvalues : List.Forall₂ (fun a b => (a == b) = true) t.values u.values := by
      simpa [members, ← hlength] using List.forall₂_drop_append _ _ _ h
    exact ⟨congrArg Layout.tag hlayout, hpositional,
      (forall₂_values_iff (congrArg Layout.fields hlayout) ht hu).mp hvalues⟩
  · intro h
    exact List.rel_append h.positional
      ((forall₂_values_iff (congrArg Layout.fields hlayout) ht hu).mpr h.field)

end byField

/-! ### What tuples inherit from their members -/

/-- Tuples over members on which equality is an equivalence relation are compared by one, too. -/
theorem equalityOn [BEq α] {P : α → Prop} (h : EqualityOn P) :
    EqualityOn fun t : Tuple α => t.WellFormed ∧ ∀ a ∈ t.members, P a where
  refl := by
    rintro t ⟨ht, hmembers⟩
    rw [beq_iff ht ht]
    exact Rel.refl fun a ha => h.refl (hmembers a ha)
  symm := by
    rintro t u ⟨ht, hmembers⟩ ⟨hu, hmembers'⟩ htu
    rw [beq_iff ht hu] at htu
    rw [beq_iff hu ht]
    exact htu.flip.imp fun b hb a ha hab => h.symm (hmembers a ha) (hmembers' b hb) hab
  trans := by
    rintro t u v ⟨ht, hmembers⟩ ⟨hu, hmembers'⟩ ⟨hv, hmembers''⟩ htu huv
    rw [beq_iff ht hu] at htu
    rw [beq_iff hu hv] at huv
    rw [beq_iff ht hv]
    exact htu.trans huv fun a ha b hb c hc hab hbc =>
      h.trans (hmembers a ha) (hmembers' b hb) (hmembers'' c hc) hab hbc

/-- Tuples of feeds that agree by address feed the same. -/
theorem hashFeed_eq_of_rel {t u : Tuple HashFeed} (ht : t.WellFormed) (hu : u.WellFormed)
    (h : Rel (· = ·) t u) : t.hashFeed = u.hashFeed := by
  have hfields := h.fields_perm ht hu
  have hlayout : t.layout.hashFeed = u.layout.hashFeed := by
    have hsymbols : t.layout.index.symbols = u.layout.index.symbols := by
      rw [← ht.map_fst_namedAscending, ← hu.map_fst_namedAscending]
      exact map_fst_namedAscending_eq hfields ht hu
    have harity : t.layout.positional = u.layout.positional :=
      arity_eq_of_positional h.positional ht hu
    have htag : t.layout.tag = u.layout.tag := h.tag_eq
    rw [Layout.hashFeed, Layout.hashFeed, harity, htag, hsymbols]
  have hpositional : t.positional = u.positional := by
    simpa [List.forall₂_eq_eq_eq] using h.positional
  have hnamed := (forall₂_namedAscending_iff hfields ht hu).mpr h.field
  rw [List.forall₂_eq_eq_eq] at hnamed
  rw [hashFeed, hashFeed, hlayout, hpositional, hnamed]

/-- Equal tuples feed the same when equal members do. -/
theorem hashFeed_map_eq_of_beq [BEq α] {feed : α → HashFeed} {t u : Tuple α} (ht : t.WellFormed)
    (hu : u.WellFormed)
    (hfeed : ∀ a ∈ t.members, ∀ b ∈ u.members, (a == b) = true → feed a = feed b)
    (h : (t == u) = true) : (t.map feed).hashFeed = (u.map feed).hashFeed := by
  rw [beq_iff ht hu] at h
  exact hashFeed_eq_of_rel (ht.map feed) (hu.map feed) (h.map hfeed)

end Tuple

end TaggedTuple
