import TaggedTuple.Proofs.Transparency.Operations
import TaggedTuple.Proofs.Tuple.Parts

/-!
# Projections on different caches

A projection asks the cache for its layout first and then reads the fields in the order of the
layout that it is given. What it makes is the same on any cache, and so is whether it fails and with
what kind of error. But of several fields that the tuple does not have, the one that comes first in
that layout is reported (`projectNamed_eq_error_iff`), and the layout stays registered, if it is new
to the cache, also when the fields cannot be read.

`projectNamed_independent_iff` says when the error does not depend on the cache: a field is asked
for twice, or no two fields are missing. With two missing fields it does
(`projectNamed_depends_on_cache_of_two_missing_fields`).
-/

namespace TaggedTuple

namespace Tuple

variable {α : Type}

/-! ### The first missing field -/

/-- The first of the fields that the tuple does not have. -/
def firstMissing? (t : Tuple α) (fields : List Symbol) : Option Symbol :=
  fields.find? fun f => !t.layout.hasField f

/-- No two of the fields are missing. -/
def MissesAtMostOne (t : Tuple α) (fields : List Symbol) : Prop :=
  ∀ f ∈ fields, ∀ g ∈ fields, f ∉ t.layout.fields → g ∉ t.layout.fields → f = g

instance (t : Tuple α) (fields : List Symbol) : Decidable (t.MissesAtMostOne fields) :=
  inferInstanceAs (Decidable (∀ f ∈ fields, ∀ g ∈ fields, _ → _ → f = g))

section firstMissing

variable {t : Tuple α} {fields fields' : List Symbol} {f : Symbol}

/-- The first missing field comes behind fields of the tuple only. -/
theorem firstMissing?_eq_some_iff :
    t.firstMissing? fields = some f ↔ f ∉ t.layout.fields ∧
      ∃ done later, fields = done ++ f :: later ∧ ∀ g ∈ done, g ∈ t.layout.fields := by
  simp only [firstMissing?, List.find?_eq_some_iff_append, Bool.not_eq_true', Bool.not_not,
    ← Bool.not_eq_true, Layout.hasField_iff]

/-- No field is missing when the tuple has all of them. -/
theorem firstMissing?_eq_none_iff :
    t.firstMissing? fields = none ↔ ∀ f ∈ fields, f ∈ t.layout.fields := by
  simp only [firstMissing?, List.find?_eq_none, Bool.not_eq_true', Bool.not_eq_false,
    Layout.hasField_iff]

/-- The first missing field is listed and not in the tuple. -/
theorem mem_of_firstMissing? (h : t.firstMissing? fields = some f) :
    f ∈ fields ∧ f ∉ t.layout.fields := by
  obtain ⟨hf, done, later, rfl, -⟩ := firstMissing?_eq_some_iff.mp h
  exact ⟨List.mem_append_right _ List.mem_cons_self, hf⟩

/-- If no field is missing, at most one is. -/
theorem missesAtMostOne_of_none (h : t.firstMissing? fields = none) :
    t.MissesAtMostOne fields := by
  rw [firstMissing?_eq_none_iff] at h
  exact fun f hmem _ _ hmissing => absurd (h f hmem) hmissing

/-- A single missing field is the first one in any order. -/
theorem MissesAtMostOne.firstMissing?_eq (h : t.MissesAtMostOne fields)
    (hperm : fields.Perm fields') : t.firstMissing? fields' = t.firstMissing? fields := by
  cases hf : t.firstMissing? fields with
  | none =>
      rw [firstMissing?_eq_none_iff] at hf ⊢
      exact fun f hmem => hf f (hperm.mem_iff.mpr hmem)
  | some f =>
      obtain ⟨hmem, hmissing⟩ := mem_of_firstMissing? hf
      cases hg : t.firstMissing? fields' with
      | none =>
          rw [firstMissing?_eq_none_iff] at hg
          exact absurd (hg f (hperm.mem_iff.mp hmem)) hmissing
      | some g =>
          obtain ⟨hmem', hmissing'⟩ := mem_of_firstMissing? hg
          rw [h f hmem g (hperm.mem_iff.mpr hmem') hmissing hmissing']

/-- A field that is the first missing one from either end is the only one. -/
theorem missesAtMostOne_of_reverse (hnodup : fields.Nodup)
    (h : t.firstMissing? fields.reverse = t.firstMissing? fields) : t.MissesAtMostOne fields := by
  cases hf : t.firstMissing? fields with
  | none => exact missesAtMostOne_of_none hf
  | some f =>
      rw [hf] at h
      obtain ⟨-, done, later, hsplit, hdone⟩ := firstMissing?_eq_some_iff.mp hf
      obtain ⟨-, done', later', hsplit', hdone'⟩ := firstMissing?_eq_some_iff.mp h
      -- what comes before `f` from the other end is what comes after it
      have hlater : later = done'.reverse := by
        have hrev : done ++ f :: later = later'.reverse ++ f :: done'.reverse := by
          rw [← hsplit, ← List.reverse_reverse fields, hsplit']
          simp
        rw [hsplit, List.nodup_middle, List.nodup_cons, List.mem_append, not_or] at hnodup
        obtain ⟨⟨hbefore, hafter⟩, -⟩ := hnodup
        exact ((List.append_cons_inj_of_notMem hbefore hafter).mp hrev).2.2
      have honly : ∀ g ∈ fields, g ∉ t.layout.fields → g = f := by
        intro g hg hmissing
        rw [hsplit, List.mem_append, List.mem_cons, hlater, List.mem_reverse] at hg
        rcases hg with hg | rfl | hg
        · exact absurd (hdone g hg) hmissing
        · rfl
        · exact absurd (hdone' g hg) hmissing
      intro g hg g' hg' hmissing hmissing'
      rw [honly g hg hmissing, honly g' hg' hmissing']

/-- Reading fields in turn reports the first one that is missing. -/
theorem WellFormed.mapM_getField_eq_error_iff (ht : t.WellFormed) {e : TupleError} :
    fields.mapM t.getField = .error e ↔
      ∃ f, t.firstMissing? fields = some f ∧ e = .unknownField f := by
  induction fields with
  | nil => exact iff_of_false (fun h => by cases h) fun ⟨f, hf, _⟩ => by cases hf
  | cons g fields ih =>
      rw [List.mapM_cons, firstMissing?, List.find?_cons, ← firstMissing?]
      cases hg : t.field? g with
      | none =>
          have hmissing : t.layout.hasField g = false := by
            rw [← Bool.not_eq_true, Layout.hasField_iff, ← ht.field?_eq_none_iff]
            exact hg
          have herror : t.getField g = .error (.unknownField g) :=
            getField_eq_error_iff.mpr ⟨hg, rfl⟩
          simp [hmissing, herror, bind, Except.bind, eq_comm]
      | some a =>
          have hthere : t.layout.hasField g = true := by
            rw [Layout.hasField_iff, ← ht.isSome_field?_iff, hg]
            rfl
          rw [hthere, getField_eq_ok_iff.mpr hg]
          refine Iff.trans ?_ ih
          cases fields.mapM t.getField <;> simp [bind, Except.bind, pure, Except.pure]

end firstMissing

/-! ### One projection -/

/-- What is wrong with a projection: a field is asked for twice, or the layout that the cache
answers with declares fields that are missing, and the first of them is named. -/
inductive ProjectionFault (t : Tuple α) (fields : List Symbol) (c : LayoutCache) :
    TupleError → Prop
  | repeated {f : Symbol} (first : repeatedField? fields = some f) :
    ProjectionFault t fields c (.duplicateField f)
  | missing {shared : SharedLayout} {f : Symbol}
    (answer : (c.construct 0 fields none).1 = .ok shared)
    (first : t.firstMissing? shared.layout.fields = some f) :
    ProjectionFault t fields c (.unknownField f)

/-- A projection leaves the cache that the request for its layout leaves. -/
theorem projectNamed_snd (t : Tuple α) (fields : List Symbol) (c : LayoutCache) :
    (t.projectNamed fields c).2 = (c.construct 0 fields none).2 := by
  unfold projectNamed
  obtain ⟨answer, c'⟩ := c.construct 0 fields none
  cases answer with
  | error e => rfl
  | ok shared => cases hvalues : shared.layout.fields.mapM t.getField <;> simp only [hvalues]

section fault

variable {t : Tuple α} {fields : List Symbol} {c d : LayoutCache}

/-- A projection that asks for a field twice leaves the cache as it was. -/
theorem projectNamed_of_repeatedField? (t : Tuple α) {f : Symbol}
    (h : repeatedField? fields = some f) (c : LayoutCache) :
    t.projectNamed fields c = (.error (.duplicateField f), c) := by
  unfold projectNamed
  simp only [LayoutCache.construct_eq_error h]

/-- On a layout that was answered, a projection fails with the first missing field. -/
theorem projectNamed_eq_error_iff_of_answer (ht : t.WellFormed) {shared : SharedLayout}
    (h : (c.construct 0 fields none).1 = .ok shared) {e : TupleError} :
    (t.projectNamed fields c).1 = .error e ↔
      ∃ f, t.firstMissing? shared.layout.fields = some f ∧ e = .unknownField f := by
  rw [← ht.mapM_getField_eq_error_iff]
  unfold projectNamed
  generalize c.construct 0 fields none = result at h ⊢
  obtain ⟨answer, c'⟩ := result
  obtain rfl : answer = .ok shared := h
  dsimp only
  cases shared.layout.fields.mapM t.getField <;> simp

/-- A projection fails exactly with what is wrong with it. -/
theorem projectNamed_eq_error_iff (ht : t.WellFormed) (hc : c.Valid) {e : TupleError} :
    (t.projectNamed fields c).1 = .error e ↔ t.ProjectionFault fields c e := by
  cases hrepeated : repeatedField? fields with
  | some g =>
      rw [projectNamed_of_repeatedField? t hrepeated]
      refine ⟨fun h => ?_, fun h => ?_⟩
      · cases h
        exact .repeated hrepeated
      · cases h with
        | repeated first =>
            cases hrepeated.symm.trans first
            rfl
        | missing answer =>
            exact absurd (hc.hasShape_of_construct answer).1
              (not_nodup_of_repeatedField? hrepeated)
  | none =>
      obtain ⟨shared, c', hconstruct, -⟩ :=
        hc.exists_construct (repeatedField?_eq_none_iff.mp hrepeated) 0 none
      have hanswer : (c.construct 0 fields none).1 = .ok shared := by rw [hconstruct]
      rw [projectNamed_eq_error_iff_of_answer ht hanswer]
      refine ⟨fun ⟨f, hf, he⟩ => ?_, fun h => ?_⟩
      · rw [he]
        exact .missing hanswer hf
      · cases h with
        | repeated first => cases hrepeated.symm.trans first
        | missing answer first =>
            cases answer.symm.trans hanswer
            exact ⟨_, first, rfl⟩

variable (hc : c.Valid) (hd : d.Valid)
include hc hd

/-- On any two caches the same kind of thing is wrong. -/
theorem ProjectionFault.sameVariant {e e' : TupleError} (h : t.ProjectionFault fields c e)
    (h' : t.ProjectionFault fields d e') : e.SameVariant e' := by
  cases h with
  | repeated first =>
      cases h' with
      | repeated => rfl
      | missing answer =>
          exact absurd (hd.hasShape_of_construct answer).1 (not_nodup_of_repeatedField? first)
  | missing answer =>
      cases h' with
      | repeated first =>
          exact absurd (hc.hasShape_of_construct answer).1 (not_nodup_of_repeatedField? first)
      | missing => rfl

/-- If no two fields are missing, the very same thing is wrong on any two caches. -/
theorem ProjectionFault.eq (hfields : ¬fields.Nodup ∨ t.MissesAtMostOne fields) {e e' : TupleError}
    (h : t.ProjectionFault fields c e) (h' : t.ProjectionFault fields d e') : e = e' := by
  have hvariant := h.sameVariant hc hd h'
  cases h with
  | repeated first =>
      cases h' with
      | repeated first' =>
          cases first.symm.trans first'
          rfl
      | missing => cases hvariant
  | missing answer first =>
      cases h' with
      | repeated => cases hvariant
      | missing answer' first' =>
          obtain ⟨hnodup, hshape⟩ := hc.hasShape_of_construct answer
          obtain ⟨-, hshape'⟩ := hd.hasShape_of_construct answer'
          have hmisses := hfields.resolve_left (not_not_intro hnodup)
          rw [hmisses.firstMissing?_eq hshape.fields_perm.symm] at first
          rw [hmisses.firstMissing?_eq hshape'.fields_perm.symm] at first'
          cases first.symm.trans first'
          rfl

/-- The projections on two caches make tuples that coincide, or fail both. -/
theorem projectNamed_rel [BEq α] (ht : t.WellFormed) {re : TupleError → TupleError → Prop}
    (hre : ∀ e e', t.ProjectionFault fields c e → t.ProjectionFault fields d e' → re e e') :
    ExceptRel re Coincides (t.projectNamed fields c).1 (t.projectNamed fields d).1 := by
  have hiff : (∃ u, (t.projectNamed fields c).1 = .ok u) ↔
      ∃ v, (t.projectNamed fields d).1 = .ok v :=
    (exists_projectNamed_iff hc ht).trans (exists_projectNamed_iff hd ht).symm
  cases hleft : (t.projectNamed fields c).1 with
  | ok u =>
      obtain ⟨v, hright⟩ := hiff.mp ⟨u, hleft⟩
      rw [hright]
      exact .ok ((hasMembers_of_projection hc hleft).coincides (hasMembers_of_projection hd hright))
  | error e =>
      cases hright : (t.projectNamed fields d).1 with
      | ok v =>
          obtain ⟨u, hleft'⟩ := hiff.mpr ⟨v, hright⟩
          cases hleft.symm.trans hleft'
      | error e' =>
          exact .error (hre e e' ((projectNamed_eq_error_iff ht hc).mp hleft)
            ((projectNamed_eq_error_iff ht hd).mp hright))

end fault

/-- If all caches report the same field, no two fields are missing: there are caches that answer
with the fields in the order in which they are asked for and in the reverse one. -/
theorem missesAtMostOne_of_forall_caches [BEq α] {t : Tuple α} (ht : t.WellFormed)
    {fields : List Symbol} (hnodup : fields.Nodup)
    (h : ∀ c d : LayoutCache, c.Valid → d.Valid → ExceptRel Eq Coincides
      (t.projectNamed fields c).1 (t.projectNamed fields d).1) : t.MissesAtMostOne fields := by
  cases hfirst : t.firstMissing? fields with
  | none => exact missesAtMostOne_of_none hfirst
  | some f =>
      obtain ⟨c, hc, shared, hanswer, hshared⟩ :=
        LayoutCache.exists_construct_fields_eq hnodup (.refl fields) 0 none
      obtain ⟨d, hd, shared', hanswer', hshared'⟩ :=
        LayoutCache.exists_construct_fields_eq (List.nodup_reverse.mpr hnodup)
          fields.reverse_perm 0 none
      have hfault : t.ProjectionFault fields c (.unknownField f) :=
        .missing hanswer (by rw [hshared, hfirst])
      have herror := (projectNamed_eq_error_iff ht hc).mpr hfault
      have hrel := h c d hc hd
      rw [herror] at hrel
      generalize hright : (t.projectNamed fields d).1 = result at hrel
      cases hrel with
      | error he =>
          subst he
          apply missesAtMostOne_of_reverse hnodup
          cases (projectNamed_eq_error_iff ht hd).mp hright with
          | missing answer first =>
              cases answer.symm.trans hanswer'
              rw [← hshared', first, hfirst]

/-! ### The law -/

/-- Whatever the two caches that are used, a projection makes tuples that coincide or fails with
errors of one kind. The error is the very same on all caches exactly if a field is asked for twice
or no two of the fields are missing; else it names the field that comes first in the layout that the
cache answers with. A layout that is new to the cache stays registered, even if the projection
fails. -/
theorem projectNamed_independent_iff [BEq α] {t : Tuple α} (ht : t.Built) (fields : List Symbol) :
    (∀ c d : LayoutCache, c.Valid → d.Valid → ExceptRel TupleError.SameVariant Coincides
      (t.projectNamed fields c).1 (t.projectNamed fields d).1) ∧
    ((∀ c d : LayoutCache, c.Valid → d.Valid → ExceptRel Eq Coincides
      (t.projectNamed fields c).1 (t.projectNamed fields d).1) ↔
        ¬fields.Nodup ∨ t.MissesAtMostOne fields) ∧
    (∀ c : LayoutCache, c.Valid → ∀ e,
      (t.projectNamed fields c).1 = .error e ↔ t.ProjectionFault fields c e) ∧
    ∀ c : LayoutCache, c.Valid → ((t.projectNamed fields c).2.entries = c.entries ↔
      ¬fields.Nodup ∨ c.canonicalize = false ∨
        ∃ x ∈ c.entries, x.2.layout.HasShape 0 fields none) := by
  rw [built_iff] at ht
  refine ⟨fun c d hc hd => ?_, ⟨fun h => ?_, fun hfields c d hc hd => ?_⟩,
    fun c hc e => projectNamed_eq_error_iff ht hc, fun c hc => ?_⟩
  · exact projectNamed_rel hc hd ht fun e e' he he' => he.sameVariant hc hd he'
  · rw [← imp_iff_not_or]
    intro hnodup
    exact missesAtMostOne_of_forall_caches ht hnodup h
  · exact projectNamed_rel hc hd ht fun e e' he he' => he.eq hc hd hfields he'
  · rw [projectNamed_snd]
    exact hc.entries_construct_eq_iff 0 fields none

/-- One missing field is reported on all caches. A canonicalizing cache has registered the layout
then, and another one that declares the fields the other way around stays as it was. -/
theorem projectNamed_independent_iff_of_one_missing_field :
    let t : Tuple Nat := ⟨⟨0, 0, .ascendingPair 0⟩, [], [10, 20]⟩
    let c := LayoutCache.empty 0 true
    let d := ((LayoutCache.empty 1 true).construct 0 [⟨3⟩, ⟨1⟩] none).2
    (∀ c d : LayoutCache, c.Valid → d.Valid → ExceptRel Eq Coincides
      (t.projectNamed [⟨1⟩, ⟨3⟩] c).1 (t.projectNamed [⟨1⟩, ⟨3⟩] d).1) ∧
      (t.projectNamed [⟨1⟩, ⟨3⟩] d).1 = .error (.unknownField ⟨3⟩) ∧
      (t.projectNamed [⟨1⟩, ⟨3⟩] c).2.entries ≠ c.entries ∧
      (t.projectNamed [⟨1⟩, ⟨3⟩] d).2.entries = d.entries := by
  intro t c d
  have ht : t.Built := built_iff.mpr ⟨rfl, rfl⟩
  have hd : d.Valid := (LayoutCache.valid_empty 1 true).construct 0 _ none
  obtain ⟨-, hindependent, hfaults, hkept⟩ := projectNamed_independent_iff ht [⟨1⟩, ⟨3⟩]
  refine ⟨hindependent.mpr (.inr (by decide)),
    (hfaults d hd _).mpr (.missing rfl (by with_unfolding_all rfl)), ?_,
    (hkept d hd).mpr (.inr (.inr ⟨_, .head _, rfl, rfl, .swap ..⟩))⟩
  rw [Ne, hkept c (LayoutCache.valid_empty 0 true)]
  rintro (hrepeated | hmode | ⟨x, hx, -⟩)
  · exact hrepeated (by decide)
  · cases hmode
  · cases hx

/-- With two missing fields the report depends on what the cache was asked for before, and the call
that fails leaves a layout behind. -/
theorem projectNamed_depends_on_cache_of_two_missing_fields :
    let t : Tuple Nat := ⟨⟨0, 0, .ofPositional 1⟩, [1], []⟩
    let c := LayoutCache.empty 0 true
    let d := ((LayoutCache.empty 1 true).construct 0 [⟨2⟩, ⟨1⟩] none).2
    t.Built ∧ c.Valid ∧ d.Valid ∧
      (t.projectNamed [⟨1⟩, ⟨2⟩] c).1 = .error (.unknownField ⟨1⟩) ∧
      (t.projectNamed [⟨1⟩, ⟨2⟩] d).1 = .error (.unknownField ⟨2⟩) ∧
      c.size = 0 ∧ (t.projectNamed [⟨1⟩, ⟨2⟩] c).2.size = 1 := by
  intro t c d
  refine ⟨built_iff.mpr ⟨rfl, rfl⟩, LayoutCache.valid_empty 0 true,
    (LayoutCache.valid_empty 1 true).construct 0 _ none, ?_, ?_, rfl, ?_⟩
  all_goals with_unfolding_all rfl

end Tuple

end TaggedTuple
