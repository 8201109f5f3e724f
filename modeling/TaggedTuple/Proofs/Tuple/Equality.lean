import TaggedTuple.Tuple.Equality
import TaggedTuple.Proofs.Tuple.Construction

/-!
# Equality of tuples is extensional

`Tuple.Rel r` relates tuples with equal tags whose positional members are related in order and whose
fields are related by name. On well-formed tuples the equality test is this relation
(`accepts_iff`, `beq_iff`): the shortcut for a shared layout instance compares the values as they
are stored, the general way pairs them in ascending order of their fields, and both come down to
comparing the values field by field.

What a tuple holds determines it up to this relation (`HasMembers.rel`).
-/

namespace TaggedTuple

namespace Tuple

variable {α β γ : Type}

/-- Equal tags, positional members related in order, and fields related by name. -/
structure Rel (r : α → β → Prop) (t : Tuple α) (u : Tuple β) : Prop where
  tag_eq : t.tag = u.tag
  positional : List.Forall₂ r t.positional u.positional
  field : ∀ f, Option.Rel r (t.field? f) (u.field? f)

/-! ### Shapes of related tuples -/

section shape

variable {r : α → β → Prop} {t : Tuple α} {u : Tuple β}

/-- Tuples with related positional members have the same arity. -/
theorem arity_eq_of_positional (h : List.Forall₂ r t.positional u.positional) (ht : t.WellFormed)
    (hu : u.WellFormed) : t.arity = u.arity := by
  have hlength := h.length_eq
  rwa [ht.positional_length, hu.positional_length] at hlength

/-- Related tuples have the same fields, up to order. -/
theorem Rel.fields_perm (h : Rel r t u) (ht : t.WellFormed) (hu : u.WellFormed) :
    t.layout.fields.Perm u.layout.fields := by
  rw [List.perm_ext_iff_of_nodup t.layout.fields_nodup u.layout.fields_nodup]
  intro f
  rw [← ht.isSome_field?_iff, ← hu.isSome_field?_iff, isSome_eq_of_rel (h.field f)]

/-- Related tuples have layouts of the same shape. -/
theorem Rel.sameShape (h : Rel r t u) (ht : t.WellFormed) (hu : u.WellFormed) :
    t.layout.sameShape u.layout = true :=
  Layout.sameShape_iff.mpr
    ⟨arity_eq_of_positional h.positional ht hu, h.tag_eq, h.fields_perm ht hu⟩

/-- On one order of declaration, values are related slot by slot exactly when they are field by
field. -/
theorem forall₂_values_iff (hfields : t.layout.fields = u.layout.fields) (ht : t.WellFormed)
    (hu : u.WellFormed) :
    List.Forall₂ r t.values u.values ↔ ∀ f, Option.Rel r (t.field? f) (u.field? f) := by
  have hkeys : t.named.map Prod.fst = u.named.map Prod.fst := by
    rw [ht.map_fst_named, hu.map_fst_named, hfields]
  rw [← ht.map_snd_named, ← hu.map_snd_named, forall₂_snd_iff_lookup hkeys ht.nodup_keys_named]
  simp only [field?_eq_lookup]

/-- On one layout instance a tuple is determined by what it holds. -/
theorem eq_of_field?_eq {t u : Tuple α} (ht : t.WellFormed) (hu : u.WellFormed)
    (hshared : t.shared = u.shared) (hpositional : t.positional = u.positional)
    (hfield : ∀ f, t.field? f = u.field? f) : t = u := by
  have hfields : t.layout.fields = u.layout.fields :=
    congrArg (fun shared : SharedLayout => shared.layout.fields) hshared
  have hvalues : List.Forall₂ (· = ·) t.values u.values := by
    refine (forall₂_values_iff hfields ht hu).mpr fun f => ?_
    rw [hfield]
    exact optionRel_refl fun a _ => rfl
  rw [List.forall₂_eq_eq_eq] at hvalues
  obtain ⟨shared, positional, values⟩ := t
  obtain rfl : shared = u.shared := hshared
  obtain rfl : positional = u.positional := hpositional
  obtain rfl : values = u.values := hvalues
  rfl

/-- The same fields, in ascending order, are the same list. -/
theorem map_fst_namedAscending_eq (hfields : t.layout.fields.Perm u.layout.fields)
    (ht : t.WellFormed) (hu : u.WellFormed) :
    t.namedAscending.map Prod.fst = u.namedAscending.map Prod.fst := by
  rw [ht.map_fst_namedAscending, hu.map_fst_namedAscending, Layout.symbols_index,
    Layout.symbols_index]
  exact (Layout.sortByKey_fields_eq_iff t.layout.fields_nodup).mpr hfields

/-- In ascending order, values are related one by one exactly when they are field by field. -/
theorem forall₂_namedAscending_iff (hfields : t.layout.fields.Perm u.layout.fields)
    (ht : t.WellFormed) (hu : u.WellFormed) :
    List.Forall₂ r (t.namedAscending.map Prod.snd) (u.namedAscending.map Prod.snd) ↔
      ∀ f, Option.Rel r (t.field? f) (u.field? f) := by
  rw [forall₂_snd_iff_lookup (map_fst_namedAscending_eq hfields ht hu)
    ht.nodup_keys_namedAscending]
  simp only [ht.lookup_namedAscending, hu.lookup_namedAscending]

/-- The named members of related tuples are related pair by pair in ascending order. -/
theorem Rel.namedAscending (h : Rel r t u) (ht : t.WellFormed) (hu : u.WellFormed) :
    List.Forall₂ (fun x y => x.1 = y.1 ∧ r x.2 y.2) t.namedAscending u.namedAscending := by
  have hfields := h.fields_perm ht hu
  exact forall₂_pairs_iff.mpr ⟨map_fst_namedAscending_eq hfields ht hu,
    (forall₂_namedAscending_iff hfields ht hu).mpr h.field⟩

end shape

/-! ### The test -/

/-- All values agree with their tests, and there are equally many. -/
theorem agreeAll_iff {ps : List (α → Bool)} {as : List α} :
    agreeAll ps as = true ↔ List.Forall₂ (fun p a => p a = true) ps as := by
  induction ps generalizing as with
  | nil => cases as <;> simp [agreeAll]
  | cons p ps ih => cases as <;> simp [agreeAll, ih]

/-- For equally many tests and values, the shorter walk is the same. -/
theorem agreeZip_iff {ps : List (α → Bool)} {as : List α} (h : ps.length = as.length) :
    agreeZip ps as = true ↔ List.Forall₂ (fun p a => p a = true) ps as := by
  rw [List.forall₂_iff_zip, agreeZip, List.all_eq_true]
  exact ⟨fun hall => ⟨h, fun hmem => hall _ hmem⟩, fun hall x hx => hall.2 hx⟩

/-- A well-formed tuple of tests accepts exactly the tuples whose members pass. -/
theorem accepts_iff {t : Tuple (α → Bool)} {u : Tuple α} (ht : t.WellFormed) (hu : u.WellFormed) :
    t.accepts u = true ↔ Rel (fun p a => p a = true) t u := by
  unfold accepts
  simp only [Bool.and_eq_true, Bool.or_eq_true, beq_iff_eq, agreeAll_iff]
  constructor
  · rintro ⟨⟨hshape, hpositional⟩, hnamed⟩
    by_cases hshared : t.shared = u.shared
    · -- one layout instance: the stored values are compared
      have hlayout : t.layout = u.layout := congrArg SharedLayout.layout hshared
      rw [if_pos hshared, agreeAll_iff] at hnamed
      exact ⟨congrArg Layout.tag hlayout, hpositional,
        (forall₂_values_iff (congrArg Layout.fields hlayout) ht hu).mp hnamed⟩
    · -- two instances: the values are paired in ascending order of their fields
      obtain ⟨-, htag, hfields⟩ := Layout.sameShape_iff.mp (hshape.resolve_left hshared)
      have hlength : (t.namedAscending.map Prod.snd).length
          = (u.namedAscending.map Prod.snd).length := by
        rw [List.length_map, List.length_map, ht.length_namedAscending, hu.length_namedAscending,
          hfields.length_eq]
      rw [if_neg hshared, agreeZip_iff hlength] at hnamed
      exact ⟨htag, hpositional, (forall₂_namedAscending_iff hfields ht hu).mp hnamed⟩
  · intro h
    refine ⟨⟨.inr (h.sameShape ht hu), h.positional⟩, ?_⟩
    split_ifs with hshared
    · have hlayout : t.layout = u.layout := congrArg SharedLayout.layout hshared
      rw [agreeAll_iff, forall₂_values_iff (congrArg Layout.fields hlayout) ht hu]
      exact h.field
    · have hforall := (forall₂_namedAscending_iff (h.fields_perm ht hu) ht hu).mpr h.field
      rw [agreeZip_iff hforall.length_eq]
      exact hforall

/-- A map of the left members can be moved into their relation. -/
theorem rel_map_left {r : β → γ → Prop} {g : α → β} {t : Tuple α} {u : Tuple γ} :
    Rel r (t.map g) u ↔ Rel (fun a => r (g a)) t u := by
  constructor
  · rintro ⟨htag, hpositional, hfield⟩
    refine ⟨htag, List.forall₂_map_left_iff.mp hpositional, fun f => ?_⟩
    rw [← optionRel_map_left, ← field?_map]
    exact hfield f
  · rintro ⟨htag, hpositional, hfield⟩
    refine ⟨htag, List.forall₂_map_left_iff.mpr hpositional, fun f => ?_⟩
    rw [field?_map, optionRel_map_left]
    exact hfield f

/-- Well-formed tuples are equal exactly when their tags, positional members and fields are. -/
theorem beq_iff [BEq α] {t u : Tuple α} (ht : t.WellFormed) (hu : u.WellFormed) :
    (t == u) = true ↔ Rel (fun a b => (a == b) = true) t u := by
  show (t.map fun a b => a == b).accepts u = true ↔ _
  rw [accepts_iff (ht.map _) hu, rel_map_left]

/-! ### Laws of the relation -/

/-- Members may be related by less. -/
theorem Rel.imp {r s : α → β → Prop} {t : Tuple α} {u : Tuple β} (h : Rel r t u)
    (hrs : ∀ a ∈ t.members, ∀ b ∈ u.members, r a b → s a b) : Rel s t u where
  tag_eq := h.tag_eq
  positional := forall₂_imp h.positional fun a ha b hb =>
    hrs a (mem_members_of_positional ha) b (mem_members_of_positional hb)
  field f := optionRel_imp (h.field f) fun a b ha hb =>
    hrs a (mem_members_of_field? ha) b (mem_members_of_field? hb)

/-- The relation of the members counts on the members only. -/
theorem rel_congr {r s : α → β → Prop} {t : Tuple α} {u : Tuple β}
    (hrs : ∀ a ∈ t.members, ∀ b ∈ u.members, (r a b ↔ s a b)) : Rel r t u ↔ Rel s t u :=
  ⟨fun h => h.imp fun a ha b hb => (hrs a ha b hb).mp,
    fun h => h.imp fun a ha b hb => (hrs a ha b hb).mpr⟩

/-- A tuple is related to itself if its members are. -/
theorem Rel.refl {r : α → α → Prop} {t : Tuple α} (h : ∀ a ∈ t.members, r a a) : Rel r t t where
  tag_eq := rfl
  positional := List.forall₂_same.mpr fun a ha => h a (mem_members_of_positional ha)
  field _ := optionRel_refl fun a ha => h a (mem_members_of_field? ha)

/-- Related tuples are related the other way round. -/
theorem Rel.flip {r : α → β → Prop} {t : Tuple α} {u : Tuple β} (h : Rel r t u) :
    Rel (fun b a => r a b) u t where
  tag_eq := h.tag_eq.symm
  positional := h.positional.flip
  field f := optionRel_flip (h.field f)

/-- Functions of related members carry the relation over to the mapped tuples. -/
theorem Rel.map {α' β' : Type} {r : α → β → Prop} {s : α' → β' → Prop} {f : α → α'} {g : β → β'}
    {t : Tuple α} {u : Tuple β} (h : Rel r t u)
    (hfg : ∀ a ∈ t.members, ∀ b ∈ u.members, r a b → s (f a) (g b)) :
    Rel s (t.map f) (u.map g) := by
  have hflip : Rel (fun a b => s (f a) (g b)) t u := h.imp hfg
  exact rel_map_left.mpr (rel_map_left.mpr hflip.flip).flip

/-- Relations of tuples compose as those of their members do. -/
theorem Rel.trans {r : α → β → Prop} {s : β → γ → Prop} {q : α → γ → Prop} {t : Tuple α}
    {u : Tuple β} {v : Tuple γ} (h : Rel r t u) (h' : Rel s u v)
    (hq : ∀ a ∈ t.members, ∀ b ∈ u.members, ∀ c ∈ v.members, r a b → s b c → q a c) :
    Rel q t v where
  tag_eq := h.tag_eq.trans h'.tag_eq
  positional := forall₂_trans h.positional h'.positional fun a ha b hb c hc =>
    hq a (mem_members_of_positional ha) b (mem_members_of_positional hb) c
      (mem_members_of_positional hc)
  field f := optionRel_trans (h.field f) (h'.field f) fun a b c ha hb hc =>
    hq a (mem_members_of_field? ha) b (mem_members_of_field? hb) c (mem_members_of_field? hc)

/-- What holds of the left side of each related pair holds of all members on the left. -/
theorem Rel.forall_left {r : α → β → Prop} {p : α → Prop} {t : Tuple α} {u : Tuple β}
    (h : Rel r t u) (ht : t.WellFormed) (hp : ∀ a b, r a b → p a) : ∀ a ∈ t.members, p a := by
  intro a ha
  rcases List.mem_append.mp ha with ha | ha
  · obtain ⟨b, -, hab⟩ := forall₂_exists_right h.positional a ha
    exact hp a b hab
  · obtain ⟨f, hf⟩ := ht.exists_field?_of_mem ha
    have hrel := h.field f
    rw [hf] at hrel
    cases hu : u.field? f with
    | none => rw [hu] at hrel; cases hrel
    | some b =>
        rw [hu, Option.rel_some_some] at hrel
        exact hp a b hrel

/-- Tuples that hold related members are related. -/
theorem HasMembers.rel {r : α → β → Prop} {t : Tuple α} {u : Tuple β} {tag : Option Symbol}
    {as : List α} {bs : List β} {named : Symbol → Option α} {named' : Symbol → Option β}
    (ht : t.HasMembers tag as named) (hu : u.HasMembers tag bs named')
    (hpositional : List.Forall₂ r as bs) (hnamed : ∀ f, Option.Rel r (named f) (named' f)) :
    Rel r t u where
  tag_eq := ht.tag_eq.trans hu.tag_eq.symm
  positional := by rwa [ht.positional_eq, hu.positional_eq]
  field f := by rw [ht.field?_eq, hu.field?_eq]; exact hnamed f

end Tuple

end TaggedTuple
