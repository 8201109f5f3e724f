import TaggedTuple.Proofs.Transparency.Operations
import TaggedTuple.Proofs.Tuple.Built
import TaggedTuple.Proofs.Tuple.Extensionality

/-!
# Tuples and their literals

A literal is a tag and a sequence of entries. A builder keeps the positional entries and the named
ones apart (`TupleBuilder.extend_eq`), so how the two kinds alternate is lost; and the members of a
finished tuple are found by field, so the order of the named entries is lost as well. What is left
is the sequence of positional values and the multiset of named ones, and these determine the outcome
on every cache (`TupleBuilder.finish_ignores_order`).

In the other direction `Tuple.entries` is a literal of a tuple. It lists every member once
(`Tuple.ListsMembers`), and every rearrangement of it that leaves the positional values in order
builds the tuple again (`Tuple.Built.entries_rebuild`).
-/

namespace TaggedTuple

variable {α : Type}

/-! ### The two kinds of entries -/

namespace TupleEntry

/-- The value of a positional entry. -/
def positional? : TupleEntry α → Option α
  | .positional value => some value
  | .named _ _ => none

/-- The field and the value of a named entry. -/
def named? : TupleEntry α → Option (Symbol × α)
  | .positional _ => none
  | .named field value => some (field, value)

/-- The fields of the named entries, in the order of the entries. -/
def fields (entries : List (TupleEntry α)) : List Symbol := (entries.filterMap named?).map Prod.fst

/-- Entries for positional values and then for named ones. -/
def listing (values : List α) (named : List (Symbol × α)) : List (TupleEntry α) :=
  values.map .positional ++ named.map fun (f, value) => .named f value

/-- The named entries of a list. -/
theorem mem_filterMap_named?_iff {entries : List (TupleEntry α)} {f : Symbol} {a : α} :
    (f, a) ∈ entries.filterMap named? ↔ .named f a ∈ entries := by
  rw [List.mem_filterMap]
  constructor
  · rintro ⟨entry, hmem, hnamed⟩
    cases entry with
    | positional value => cases hnamed
    | named field value =>
        cases hnamed
        exact hmem
  · intro hmem
    exact ⟨_, hmem, rfl⟩

/-- The positional entries of a listing are its values. -/
@[simp] theorem filterMap_positional?_listing (values : List α) (named : List (Symbol × α)) :
    (listing values named).filterMap positional? = values := by
  simp [listing, List.filterMap_append, List.filterMap_map, Function.comp_def, positional?]

/-- The named entries of a listing are its pairs. -/
@[simp] theorem filterMap_named?_listing (values : List α) (named : List (Symbol × α)) :
    (listing values named).filterMap named? = named := by
  simp [listing, List.filterMap_append, List.filterMap_map, Function.comp_def, named?]

end TupleEntry

open TupleEntry (positional? named? fields listing)

namespace TupleBuilder

/-- A builder tells the kinds of entries apart and keeps the order within each kind. -/
theorem extend_eq (b : TupleBuilder α) (entries : List (TupleEntry α)) :
    b.extend entries = { b with
      positional := b.positional ++ entries.filterMap positional?
      named := b.named ++ entries.filterMap named? } := by
  induction entries generalizing b with
  | nil => simp [extend]
  | cons entry entries ih =>
      rw [extend, List.foldl_cons]
      refine (ih _).trans ?_
      cases entry with
      | positional value => simp [add, push, List.filterMap_cons, positional?, named?]
      | named field value => simp [add, insert, List.filterMap_cons, positional?, named?]

/-- A builder collects the entries by kind, in their order. -/
theorem extend_empty (tag : Option Symbol) (entries : List (TupleEntry α)) :
    (empty tag).extend entries
      = ⟨tag, entries.filterMap positional?, entries.filterMap named?⟩ :=
  extend_eq _ entries

/-- A builder with the tag and the members of a tuple builds them again, on any cache. -/
theorem exists_finish_of_members {t : Tuple α} {named : List (Symbol × α)}
    (hnodup : (named.map Prod.fst).Nodup) (hnamed : ∀ f, named.lookup f = t.field? f)
    {c : LayoutCache} (hc : c.Valid) :
    ∃ u c', (⟨t.tag, t.positional, named⟩ : TupleBuilder α).finish c = (.ok u, c') ∧
      u.HasMembers t.tag t.positional t.field? := by
  rcases (⟨t.tag, t.positional, named⟩ : TupleBuilder α).finish_cases hc with
    ⟨f, hf, -⟩ | ⟨-, u, c', hfinish, -, hu⟩
  · exact absurd hnodup (not_nodup_of_repeatedField? hf)
  · simp only [hnamed] at hu
    exact ⟨u, c', hfinish, hu⟩

/-! ### From a literal to a tuple -/

/-- The tuple has the tag and the entries of a literal: its `i`-th positional entry at `i`, each
named entry at its field, and nothing else. -/
structure Holds (t : Tuple α) (tag : Option Symbol) (entries : List (TupleEntry α)) : Prop where
  tag_eq : t.tag = tag
  get_iff : ∀ i a, t.get i = .ok a ↔ (entries.filterMap positional?)[i]? = some a
  getField_iff : ∀ f a, t.getField f = .ok a ↔ .named f a ∈ entries

section literal

variable (tag : Option Symbol) (entries : List (TupleEntry α))

/-- The two outcomes of a literal: a field is named twice, or its entries make the tuple. -/
theorem finish_extend_cases {c : LayoutCache} (hc : c.Valid) :
    (∃ f, LeastRepeated (fields entries) f ∧
      ((empty tag).extend entries).finish c = (.error (.duplicateField f), c)) ∨
    ((fields entries).Nodup ∧ ∃ t c', ((empty tag).extend entries).finish c = (.ok t, c') ∧
      t.HasMembers tag (entries.filterMap positional?) fun f =>
        (entries.filterMap named?).lookup f) := by
  rw [extend_empty]
  rcases (⟨tag, entries.filterMap positional?, entries.filterMap named?⟩ :
      TupleBuilder α).finish_cases hc with ⟨f, hf, herror⟩ | ⟨hnodup, t, c', hok, -, hmembers⟩
  · exact .inl ⟨f, repeatedField?_eq_some_iff.mp hf, herror⟩
  · exact .inr ⟨hnodup, t, c', hok, hmembers⟩

variable {tag entries}

/-- A tuple with the members of the entries holds the entries. -/
theorem holds_of_hasMembers (hnodup : (fields entries).Nodup) {t : Tuple α}
    (h : t.HasMembers tag (entries.filterMap positional?) fun f =>
      (entries.filterMap named?).lookup f) : Holds t tag entries where
  tag_eq := h.tag_eq
  get_iff i a := by
    rw [← h.positional_eq]
    exact h.wellFormed.getKey_index_eq_ok_iff
  getField_iff f a := by
    rw [Tuple.getField_eq_ok_iff, h.field?_eq, lookup_eq_some_iff_mem hnodup,
      TupleEntry.mem_filterMap_named?_iff]

variable {c : LayoutCache} (hc : c.Valid)
include hc

/-- A builder fails with the least field that repeats. -/
theorem finish_extend_eq_error_iff {e : TupleError} :
    (((empty tag).extend entries).finish c).1 = .error e ↔
      ∃ f, LeastRepeated (fields entries) f ∧ e = .duplicateField f := by
  rcases finish_extend_cases tag entries hc with ⟨f, hf, herror⟩ | ⟨hnodup, t, c', hok, -⟩
  · rw [herror]
    constructor
    · rintro ⟨⟩
      exact ⟨f, hf, rfl⟩
    · rintro ⟨g, hg, rfl⟩
      rw [hf.eq hg]
  · rw [hok]
    constructor
    · rintro ⟨⟩
    · rintro ⟨f, hf, -⟩
      exact absurd hnodup hf.not_nodup

/-- Without repeated fields a builder makes a tuple that holds the entries. -/
theorem exists_finish_extend (hnodup : (fields entries).Nodup) :
    ∃ t, (((empty tag).extend entries).finish c).1 = .ok t ∧ Holds t tag entries := by
  rcases finish_extend_cases tag entries hc with ⟨f, hf, -⟩ | ⟨-, t, c', hok, hmembers⟩
  · exact absurd hnodup hf.not_nodup
  · exact ⟨t, congrArg Prod.fst hok, holds_of_hasMembers hnodup hmembers⟩

end literal

/-- What is left of a literal decides how it ends. -/
theorem finish_extend_rel [BEq α] (tag : Option Symbol) {xs ys : List (TupleEntry α)}
    (hpositional : xs.filterMap positional? = ys.filterMap positional?)
    (hnamed : (xs.filterMap named?).Perm (ys.filterMap named?)) {c d : LayoutCache}
    (hc : c.Valid) (hd : d.Valid) :
    ExceptRel Eq Tuple.Coincides (((empty tag).extend xs).finish c).1
      (((empty tag).extend ys).finish d).1 := by
  have hfields : (fields xs).Perm (fields ys) := hnamed.map Prod.fst
  rcases finish_extend_cases tag xs hc with ⟨f, hf, hxs⟩ | ⟨hnodup, t, c', hxs, ht⟩
  · rcases finish_extend_cases tag ys hd with ⟨g, hg, hys⟩ | ⟨hnodup, -⟩
    · rw [hxs, hys, (hf.of_perm hfields).eq hg]
      exact .error rfl
    · exact absurd (hfields.nodup_iff.mpr hnodup) hf.not_nodup
  · rcases finish_extend_cases tag ys hd with ⟨g, hg, -⟩ | ⟨-, u, d', hys, hu⟩
    · exact absurd (hfields.nodup_iff.mp hnodup) hg.not_nodup
    · rw [hxs, hys]
      simp only [hpositional, lookup_eq_of_perm hnodup hnamed] at ht
      exact .ok (ht.coincides hu)

/-- Literals with the same positional entries in order and the same named entries in any order,
mixed in any way, have the same outcome on any two caches: equal tuples, which hold the entries, or
the least field that is named twice. -/
theorem finish_ignores_order [BEq α] (tag : Option Symbol) {xs ys : List (TupleEntry α)}
    (hpositional : xs.filterMap positional? = ys.filterMap positional?)
    (hnamed : (xs.filterMap named?).Perm (ys.filterMap named?)) {c d : LayoutCache}
    (hc : c.Valid) (hd : d.Valid) :
    let outcome := (((empty tag).extend xs).finish c).1
    ExceptRel Eq Tuple.Coincides outcome (((empty tag).extend ys).finish d).1 ∧
    ((∃ e, outcome = .error e) ↔ ∃ f, 2 ≤ (fields xs).count f) ∧
    (∀ e, outcome = .error e ↔ ∃ f, LeastRepeated (fields xs) f ∧ e = .duplicateField f) ∧
    ((∀ f, (fields xs).count f ≤ 1) → ∃ t, outcome = .ok t ∧ Holds t tag xs) := by
  intro outcome
  refine ⟨finish_extend_rel tag hpositional hnamed hc hd, ?_,
    fun e => finish_extend_eq_error_iff hc, fun hcount => ?_⟩
  · rw [← exists_leastRepeated_iff]
    constructor
    · rintro ⟨e, he⟩
      obtain ⟨f, hf, -⟩ := (finish_extend_eq_error_iff hc).mp he
      exact ⟨f, hf⟩
    · rintro ⟨f, hf⟩
      exact ⟨_, (finish_extend_eq_error_iff hc).mpr ⟨f, hf, rfl⟩⟩
  · exact exists_finish_extend hc (List.nodup_iff_count_le_one.mpr hcount)

/-- A literal and a rearranged one, on a cache that keeps the order of fields and on one that does
not, and a literal that names two fields twice. -/
theorem finish_ignores_order_of_point :
    let xs : List (TupleEntry Nat) := [.named ⟨2⟩ 20, .positional 5, .named ⟨1⟩ 10, .positional 6]
    let ys : List (TupleEntry Nat) := [.positional 5, .named ⟨1⟩ 10, .named ⟨2⟩ 20, .positional 6]
    let zs : List (TupleEntry Nat) := [.named ⟨9⟩ 1, .named ⟨4⟩ 2, .named ⟨9⟩ 3, .named ⟨4⟩ 4]
    (∃ t u, (((empty (some ⟨7⟩)).extend xs).finish (.empty 0 false)).1 = .ok t ∧
      (((empty (some ⟨7⟩)).extend ys).finish (.empty 3 true)).1 = .ok u ∧ t.Coincides u ∧
      t.get 1 = .ok 6 ∧ t.getField ⟨1⟩ = .ok 10) ∧
    (((empty none).extend zs).finish (.empty 0 true)).1 = .error (.duplicateField ⟨4⟩) := by
  intro xs ys zs
  have hpoint := @finish_ignores_order Nat _ (some ⟨7⟩) xs ys rfl (List.Perm.swap ..)
    (.empty 0 false) (.empty 3 true) (LayoutCache.valid_empty _ _) (LayoutCache.valid_empty _ _)
  have hrepeated := @finish_ignores_order Nat _ none zs zs rfl (.refl _) (.empty 0 true)
    (.empty 0 true) (LayoutCache.valid_empty _ _) (LayoutCache.valid_empty _ _)
  obtain ⟨hrel, -, -, hholds⟩ := hpoint
  obtain ⟨t, ht, hmembers⟩ := hholds fun f => List.nodup_iff_count_le_one.mp (by decide) f
  refine ⟨?_, (hrepeated.2.2.1 _).mpr ⟨⟨4⟩, repeatedField?_eq_some_iff.mp (by decide), rfl⟩⟩
  rw [ht] at hrel
  generalize hu : (((empty (some ⟨7⟩)).extend ys).finish (.empty 3 true)).1 = outcome at hrel
  cases hrel with
  | @ok _ u h =>
      exact ⟨t, u, ht, rfl, h, (hmembers.get_iff 1 6).mpr rfl,
        (hmembers.getField_iff ⟨1⟩ 10).mpr (by decide)⟩

end TupleBuilder

/-! ### From a tuple to its literals -/

namespace Tuple

/-- The entries list the positional members in order and then each field once, with the value that
is read there. -/
structure ListsMembers (t : Tuple α) (entries : List (TupleEntry α)) : Prop where
  positional : List.Forall₂ (fun i entry => ∃ a, t.get i = .ok a ∧ entry = .positional a)
    (List.range t.arity) (entries.take t.arity)
  named : ∃ fields : List Symbol, fields.Nodup ∧ (∀ f, f ∈ fields ↔ ∃ a, t.getField f = .ok a) ∧
    List.Forall₂ (fun f entry => ∃ a, t.getField f = .ok a ∧ entry = .named f a)
      fields (entries.drop t.arity)

/-- All members: the positional ones, then the named ones in ascending order of their fields. -/
def entriesAscending (t : Tuple α) : List (TupleEntry α) := listing t.positional t.namedAscending

section listing

variable {t : Tuple α} (ht : t.WellFormed) {named : List (Symbol × α)} (hnamed : named.Perm t.named)
include ht hnamed

/-- Reordered named members name no field twice. -/
theorem nodup_keys_of_perm_named : (named.map Prod.fst).Nodup :=
  (hnamed.map Prod.fst).nodup_iff.mpr ht.nodup_keys_named

/-- Reordered named members give the same association. -/
theorem lookup_of_perm_named (f : Symbol) : named.lookup f = t.field? f := by
  rw [field?_eq_lookup]
  exact lookup_eq_of_perm (nodup_keys_of_perm_named ht hnamed) hnamed f

/-- A listing lists the members of the tuple. -/
theorem listsMembers_listing : t.ListsMembers (listing t.positional named) := by
  have harity : t.arity = (t.positional.map TupleEntry.positional).length := by
    rw [List.length_map]
    exact ht.positional_length.symm
  have hmem : ∀ f a, (f, a) ∈ named ↔ t.getField f = .ok a := by
    intro f a
    rw [← lookup_eq_some_iff_mem (nodup_keys_of_perm_named ht hnamed),
      lookup_of_perm_named ht hnamed, getField_eq_ok_iff]
  refine ⟨?_, named.map Prod.fst, nodup_keys_of_perm_named ht hnamed, fun f => ?_, ?_⟩
  · rw [listing, harity, List.take_left, List.length_map, List.forall₂_map_right_iff,
      List.forall₂_iff_get]
    refine ⟨List.length_range, fun i hi hi' => ⟨_, ?_, rfl⟩⟩
    apply ht.getKey_index_eq_ok_iff.mpr
    simp [List.getElem?_eq_getElem hi']
  · simp only [List.mem_map, Prod.exists, exists_and_right, exists_eq_right, hmem]
  · rw [listing, harity, List.drop_left, List.forall₂_map_left_iff, List.forall₂_map_right_iff]
    rw [List.forall₂_same]
    rintro ⟨f, a⟩ hfa
    exact ⟨a, (hmem f a).mp hfa, rfl⟩

/-- Rearranged entries build the tuple again, if the positional ones stay in order. -/
theorem exists_finish_of_perm_listing [BEq α] {xs : List (TupleEntry α)}
    (hxs : xs.Perm (listing t.positional named))
    (hpositional : xs.filterMap positional? = t.positional) {c : LayoutCache} (hc : c.Valid) :
    ∃ u, (((TupleBuilder.empty t.tag).extend xs).finish c).1 = .ok u ∧ t.Coincides u := by
  have hperm : (xs.filterMap named?).Perm t.named := by
    have h := hxs.filterMap named?
    rw [TupleEntry.filterMap_named?_listing] at h
    exact h.trans hnamed
  rw [TupleBuilder.extend_empty, hpositional]
  obtain ⟨u, c', hfinish, hu⟩ := TupleBuilder.exists_finish_of_members
    (nodup_keys_of_perm_named ht hperm) (lookup_of_perm_named ht hperm) hc
  exact ⟨u, congrArg Prod.fst hfinish, HasMembers.coincides ⟨ht, rfl, rfl, fun _ => rfl⟩ hu⟩

end listing

/-- The entries of a tuple, with its fields in the order of declaration or in ascending order, list
every member once. Extending a builder by them, or by a rearrangement that keeps the positional ones
in order, builds an equal tuple on every cache. -/
theorem Built.entries_rebuild [BEq α] {t : Tuple α} (ht : t.Built) :
    ∀ entries ∈ [t.entries, t.entriesAscending],
      t.ListsMembers entries ∧
      ∀ xs : List (TupleEntry α), xs.Perm entries →
        xs.filterMap positional? = entries.filterMap positional? →
        ∀ c : LayoutCache, c.Valid →
          ∃ u, (((TupleBuilder.empty t.tag).extend xs).finish c).1 = .ok u ∧ t.Coincides u := by
  intro entries hentries
  obtain ⟨named, hnamed, rfl⟩ : ∃ named, named.Perm t.named ∧
      entries = listing t.positional named := by
    rcases List.mem_pair.mp hentries with rfl | rfl
    · exact ⟨t.named, .refl _, rfl⟩
    · exact ⟨t.namedAscending, t.perm_namedAscending, rfl⟩
  refine ⟨listsMembers_listing ht.wellFormed hnamed, fun xs hxs hpositional c hc => ?_⟩
  rw [TupleEntry.filterMap_positional?_listing] at hpositional
  exact exists_finish_of_perm_listing ht.wellFormed hnamed hxs hpositional hc

/-- A tuple whose layout declares its fields in descending order, rebuilt from mixed entries on a
cache that declares fields in ascending order. -/
theorem entries_rebuild_of_descending_pair :
    let t : Tuple Nat := ⟨⟨0, 3, .descendingPair 2⟩, [5, 6], [20, 10]⟩
    let xs : List (TupleEntry Nat) := [.named ⟨1⟩ 10, .positional 5, .named ⟨2⟩ 20, .positional 6]
    t.entries = [.positional 5, .positional 6, .named ⟨2⟩ 20, .named ⟨1⟩ 10] ∧
    t.ListsMembers t.entriesAscending ∧
    ∃ u, (((TupleBuilder.empty t.tag).extend xs).finish (.empty 7 true)).1 = .ok u ∧
      (t == u) = true := by
  intro t xs
  have ht : t.Built := built_iff.mpr ⟨rfl, rfl⟩
  obtain ⟨-, hrebuild⟩ := ht.entries_rebuild t.entries (by simp)
  obtain ⟨hascending, -⟩ := ht.entries_rebuild t.entriesAscending (by simp)
  obtain ⟨u, hu, hcoincides⟩ := hrebuild xs (by decide) rfl _ (LayoutCache.valid_empty 7 true)
  exact ⟨rfl, hascending, u, hu, hcoincides.beq fun a _ => beq_self_eq_true a⟩

end Tuple

end TaggedTuple
