import TaggedTuple.Layout.Cache
import TaggedTuple.Proofs.Layout.FieldIndex

/-!
# The shape of a layout

A layout has a shape: its positional count, its tag and the set of its fields (`Layout.HasShape`).
Equality of shapes, equality of keys and agreement on the three parts are the same thing
(`Layout.sameShape_iff`, `Layout.key_eq_iff`), and the key that is computed from a declaration is
the key of exactly the layouts with that shape (`LayoutKey.build_eq_ok`,
`Layout.key_eq_key_declare_iff`).
-/

namespace TaggedTuple

/-- The layout has the given members, declared in some order. -/
structure Layout.HasShape (l : Layout) (positional : Nat) (fields : List Symbol)
    (tag : Option Symbol) : Prop where
  positional_eq : l.positional = positional
  tag_eq : l.tag = tag
  fields_perm : l.fields.Perm fields

namespace Layout

/-- A layout declares no field twice. -/
theorem fields_nodup (l : Layout) : l.fields.Nodup := FieldIndex.nodup_of_build l.index_built

/-- The index lists the fields of the layout in ascending order. -/
theorem symbols_index (l : Layout) : l.index.symbols = sortByKey id l.fields :=
  FieldIndex.symbols_of_build l.index_built

/-- The fields have the slots behind those of the positional members, in the order of their
declaration. -/
theorem slotOf?_eq_some_iff (l : Layout) {f : Symbol} {s : Nat} :
    l.slotOf? f = some s ↔ ∃ i : Nat, l.fields[i]? = some f ∧ s = l.positional + i :=
  FieldIndex.find?_eq_some_iff l.index_built

/-- The slot of a field gives back its place in the declaration. -/
theorem positionOf?_eq_some_iff (l : Layout) {f : Symbol} {i : Nat} :
    l.positionOf? f = some i ↔ l.fields[i]? = some f := by
  unfold positionOf?
  rw [Option.map_eq_some_iff]
  constructor
  · rintro ⟨s, hs, rfl⟩
    obtain ⟨i, hi, rfl⟩ := l.slotOf?_eq_some_iff.mp hs
    rwa [Nat.add_sub_cancel_left]
  · intro hi
    exact ⟨l.positional + i, l.slotOf?_eq_some_iff.mpr ⟨i, hi, rfl⟩, Nat.add_sub_cancel_left _ _⟩

/-- A field that is not declared has no position. -/
theorem positionOf?_eq_none_iff (l : Layout) {f : Symbol} :
    l.positionOf? f = none ↔ f ∉ l.fields := by
  rw [List.mem_iff_getElem?, Option.eq_none_iff_forall_ne_some, not_exists]
  exact forall_congr' fun position => not_congr l.positionOf?_eq_some_iff

/-- A field that is not declared has no slot. -/
theorem slotOf?_eq_none_iff (l : Layout) {f : Symbol} : l.slotOf? f = none ↔ f ∉ l.fields := by
  rw [← l.positionOf?_eq_none_iff, positionOf?, Option.map_eq_none_iff]

/-- A layout has the fields that it declares. -/
theorem hasField_iff (l : Layout) {f : Symbol} : l.hasField f = true ↔ f ∈ l.fields :=
  FieldIndex.contains_iff l.index_built

/-- The place of a declared field is one of the declaration. -/
theorem exists_positionOf? {l : Layout} {f : Symbol} (h : f ∈ l.fields) :
    ∃ position, l.positionOf? f = some position ∧ position < l.fields.length := by
  obtain ⟨position, hget⟩ := List.mem_iff_getElem?.mp h
  refine ⟨position, l.positionOf?_eq_some_iff.mpr hget, ?_⟩
  exact (List.getElem?_eq_some_iff.mp hget).1

/-! ### Building -/

/-- There is no layout with a repeated field. -/
theorem build_eq_error {fields : List Symbol} {f : Symbol} (h : repeatedField? fields = some f)
    (positional : Nat) (tag : Option Symbol) :
    build positional fields tag = .error (.duplicateField f) := by
  unfold build
  split
  · next hbuild => rw [FieldIndex.build_eq_error h] at hbuild; cases hbuild
  · next e hbuild => rw [FieldIndex.build_eq_error h] at hbuild; cases hbuild; rfl

/-- The layout of a declaration that names no field twice. -/
def declare (positional : Nat) {fields : List Symbol} (h : fields.Nodup) (tag : Option Symbol) :
    Layout where
  positional := positional
  fields := fields
  tag := tag
  index := ⟨(sortByKey Prod.fst (fields.zipIdx positional)).toArray⟩
  index_built := FieldIndex.build_eq_ok h positional

/-- A declaration without repeated fields has a layout, which keeps its order. -/
theorem build_eq_ok {fields : List Symbol} (h : fields.Nodup) (positional : Nat)
    (tag : Option Symbol) : build positional fields tag = .ok (declare positional h tag) := by
  unfold build
  split
  · next index hbuild =>
      rw [FieldIndex.build_eq_ok h] at hbuild
      cases hbuild
      rfl
  · next e hbuild => rw [FieldIndex.build_eq_ok h] at hbuild; cases hbuild

/-! ### Keys and shapes -/

/-- Lists of distinct fields have the same sorted form exactly when they have the same members. -/
theorem sortByKey_fields_eq_iff {fields fields' : List Symbol} (h : fields.Nodup) :
    sortByKey id fields = sortByKey id fields' ↔ fields.Perm fields' := by
  constructor
  · intro heq
    exact (sortByKey_perm fields).symm.trans (heq ▸ sortByKey_perm fields')
  · intro hperm
    exact sortByKey_eq_of_perm (by rwa [List.map_id]) hperm

/-- A key tells the positional members, the tag and the fields up to order. -/
theorem key_eq_iff {a b : Layout} :
    a.key = b.key ↔ a.positional = b.positional ∧ a.tag = b.tag ∧ a.fields.Perm b.fields := by
  simp only [key, LayoutKey.mk.injEq, symbols_index, sortByKey_fields_eq_iff a.fields_nodup]

/-- The layouts with the key of a declaration are those with its shape. -/
theorem key_eq_key_declare_iff {l : Layout} {positional : Nat} {fields : List Symbol}
    {h : fields.Nodup} {tag : Option Symbol} :
    l.key = (declare positional h tag).key ↔ l.HasShape positional fields tag := by
  rw [key_eq_iff]
  exact ⟨fun ⟨hp, ht, hf⟩ => ⟨hp, ht, hf⟩, fun h => ⟨h.positional_eq, h.tag_eq, h.fields_perm⟩⟩

/-- A layout has the shape that it is declared with. -/
theorem hasShape_declare (positional : Nat) {fields : List Symbol} (h : fields.Nodup)
    (tag : Option Symbol) : (declare positional h tag).HasShape positional fields tag :=
  ⟨rfl, rfl, .refl _⟩

/-- Layouts have the same shape when they differ in the order of fields only. -/
theorem sameShape_iff {a b : Layout} :
    a.sameShape b = true ↔
      a.positional = b.positional ∧ a.tag = b.tag ∧ a.fields.Perm b.fields := by
  have hsize : a.index.symbols = b.index.symbols → a.index.size = b.index.size := by
    intro h
    simpa [FieldIndex.symbols, FieldIndex.size] using congrArg List.length h
  rw [← sortByKey_fields_eq_iff a.fields_nodup, ← symbols_index, ← symbols_index]
  simp only [sameShape, FieldIndex.sameSymbols, Bool.and_eq_true, beq_iff_eq, and_assoc]
  exact and_congr_right fun _ => and_congr_right fun _ => ⟨And.right, fun h => ⟨hsize h, h⟩⟩

/-- A layout with two fields, declared in ascending order. -/
def ascendingPair (positional : Nat) : Layout where
  positional := positional
  fields := [⟨1⟩, ⟨2⟩]
  tag := none
  index := ⟨#[(⟨1⟩, positional), (⟨2⟩, positional + 1)]⟩
  index_built := rfl

/-- The same two fields, declared the other way around. -/
def descendingPair (positional : Nat) : Layout where
  positional := positional
  fields := [⟨2⟩, ⟨1⟩]
  tag := none
  index := ⟨#[(⟨1⟩, positional + 1), (⟨2⟩, positional)]⟩
  index_built := rfl

example : (ascendingPair 0).sameShape (descendingPair 0) = true := by decide

end Layout

namespace LayoutKey

/-- There is no key with a repeated field. -/
theorem build_eq_error {fields : List Symbol} {f : Symbol} (h : repeatedField? fields = some f)
    (positional : Nat) (tag : Option Symbol) :
    build positional fields tag = .error (.duplicateField f) := by
  unfold repeatedField? at h
  simp only [build, h]

/-- The key of a declaration without repeated fields is the key of its layout. -/
theorem build_eq_ok {fields : List Symbol} (h : fields.Nodup) (positional : Nat)
    (tag : Option Symbol) :
    build positional fields tag = .ok (Layout.declare positional h tag).key := by
  have hnone := repeatedField?_eq_none_iff.mpr h
  unfold repeatedField? at hnone
  simp only [build, hnone, Layout.key, Layout.symbols_index]
  rfl

end LayoutKey

end TaggedTuple
