import Mathlib.Data.Set.Function
import TaggedTuple.Proofs.Layout.Shape

/-!
# The slots of a layout

The members of a tuple are stored in one array, the positional ones first. A layout numbers the
places of this array: position `i` of the declaration is slot `P + i` for `P` positional members.
`Layout.bijOn_slotOf?` says that this is a numbering, one slot for each field and one field for each
slot behind the positional ones.

Slots are machine words, and the program stops at a sum that is none. It stops at a declaration with
fields that takes more slots than there are words (`Layout.tryBuild_eq_none_iff`), and when it is
asked how many slots there are if that number is no word (`Layout.length?_eq_none_iff`). Everything
else is computed as with numbers.

The index of a layout is a sorted map of these slots, in whatever order the fields were declared
(`Layout.build_indexes_declaration`): it lists each field once, in ascending order, and the search
finds the slot of every field that is declared and nothing else.
-/

namespace TaggedTuple

namespace Layout

variable {l : Layout} {f : Symbol} {s : Nat}

/-- The fields are mapped one-to-one onto their places in the declaration. -/
theorem bijOn_positionOf? (l : Layout) :
    Set.BijOn l.positionOf? {f | f ∈ l.fields} (some '' Set.Iio l.fields.length) := by
  refine ⟨fun f hf => ?_, fun f hf g hg hfg => ?_, ?_⟩
  · obtain ⟨i, hfind, hi⟩ := exists_positionOf? hf
    exact ⟨i, hi, hfind.symm⟩
  · obtain ⟨i, hfind, -⟩ := exists_positionOf? hf
    have hi := l.positionOf?_eq_some_iff.mp hfind
    have hi' := l.positionOf?_eq_some_iff.mp (hfg ▸ hfind)
    exact Option.some.inj (hi.symm.trans hi')
  · rintro _ ⟨i, hi, rfl⟩
    have hlt : i < l.fields.length := hi
    have hget : l.fields[i]? = some l.fields[i] := List.getElem?_eq_getElem hlt
    exact ⟨l.fields[i], List.getElem_mem hlt, l.positionOf?_eq_some_iff.mpr hget⟩

/-- The fields are mapped one-to-one onto the slots behind the positional members. -/
theorem bijOn_slotOf? (l : Layout) :
    Set.BijOn l.slotOf? {f | f ∈ l.fields}
      (some '' Set.Ico l.positional (l.positional + l.fields.length)) := by
  refine ⟨fun f hf => ?_, fun f hf g hg hfg => ?_, ?_⟩
  · obtain ⟨i, hi⟩ := List.mem_iff_getElem?.mp hf
    have hlt := (List.getElem?_eq_some_iff.mp hi).1
    refine ⟨l.positional + i, ⟨by omega, by omega⟩, ?_⟩
    exact (l.slotOf?_eq_some_iff.mpr ⟨i, hi, rfl⟩).symm
  · obtain ⟨i, hi⟩ := List.mem_iff_getElem?.mp hf
    have hslot := l.slotOf?_eq_some_iff.mpr ⟨i, hi, rfl⟩
    obtain ⟨j, hj, hij⟩ := l.slotOf?_eq_some_iff.mp (hfg ▸ hslot)
    obtain rfl : i = j := by omega
    exact Option.some.inj (hi.symm.trans hj)
  · rintro _ ⟨s, ⟨hle, hlt⟩, rfl⟩
    have hi : s - l.positional < l.fields.length := by omega
    refine ⟨l.fields[s - l.positional], List.getElem_mem hi, l.slotOf?_eq_some_iff.mpr ?_⟩
    exact ⟨s - l.positional, List.getElem?_eq_getElem hi, by omega⟩

/-- The slot of a field gives back the position of the field: the subtraction does not underflow and
its result is a position of the declaration, namely that of the field. -/
structure SlotsFit (l : Layout) : Prop where
  positional_le : ∀ f s, l.slotOf? f = some s → l.positional ≤ s
  sub_lt : ∀ f s, l.slotOf? f = some s → s - l.positional < l.fields.length
  getElem?_sub : ∀ f s, l.slotOf? f = some s → l.fields[s - l.positional]? = some f

/-- Every layout numbers its fields so that the slots give back the positions. -/
theorem slotsFit (l : Layout) : l.SlotsFit := by
  refine ⟨fun f s hs => ?_, fun f s hs => ?_, fun f s hs => ?_⟩
  all_goals obtain ⟨i, hi, rfl⟩ := l.slotOf?_eq_some_iff.mp hs
  · exact Nat.le_add_right _ _
  · rw [Nat.add_sub_cancel_left]
    exact (List.getElem?_eq_some_iff.mp hi).1
  · rwa [Nat.add_sub_cancel_left]

/-! ### Where the program stops -/

section words

variable {positional : Nat} {fields fields' : List Symbol} {tag : Option Symbol}

/-- The slots of a declaration are words if it has no fields, or no more members than there are
words. -/
theorem slotsAreWords_iff :
    slotsAreWords positional fields = true ↔
      fields = [] ∨ positional + fields.length ≤ slotLimit := by
  have hslots : slotsAreWords positional fields = true ↔
      ∀ s ∈ (fields.zipIdx positional).map Prod.snd, s < slotLimit := by
    rw [slotsAreWords, List.all_eq_true, List.forall_mem_map]
    exact forall₂_congr fun x _ => decide_eq_true_iff
  rw [hslots, List.zipIdx_map_snd]
  simp only [List.mem_range'_1]
  constructor
  · intro h
    rcases Nat.eq_zero_or_pos fields.length with hzero | hpos
    · exact .inl (List.eq_nil_of_length_eq_zero hzero)
    · have hlast := h (positional + fields.length - 1) (by omega)
      exact .inr (by omega)
  · rintro (rfl | h) s ⟨hle, hlt⟩
    · rw [List.length_nil] at hlt
      omega
    · omega

/-- The order of the fields makes no difference. -/
theorem slotsAreWords_congr (h : fields.Perm fields') :
    slotsAreWords positional fields = slotsAreWords positional fields' := by
  rw [Bool.eq_iff_iff, slotsAreWords_iff, slotsAreWords_iff, h.length_eq,
    ← List.length_eq_zero_iff, ← List.length_eq_zero_iff, h.length_eq]

/-- The program computes the layout if the slots are words. -/
theorem tryBuild_eq_build (h : slotsAreWords positional fields = true) (tag : Option Symbol) :
    tryBuild positional fields tag = some (build positional fields tag) := if_pos h

/-- The program stops if a slot is no word. -/
theorem tryBuild_eq_none (h : slotsAreWords positional fields = false) (tag : Option Symbol) :
    tryBuild positional fields tag = none := if_neg (by simp [h])

/-- A layout cannot be built when the slots of its fields pass the limit. -/
theorem tryBuild_eq_none_iff :
    tryBuild positional fields tag = none ↔
      fields ≠ [] ∧ slotLimit < positional + fields.length := by
  rw [tryBuild, ite_eq_right_iff, ← Nat.not_le, ← not_or, ← slotsAreWords_iff]
  exact imp_congr_right fun _ => iff_of_false (Option.some_ne_none _) id

/-- Without fields there is no sum to compute. -/
theorem slotsAreWords_nil (positional : Nat) : slotsAreWords positional [] = true := rfl

/-- The number of slots is that of the members. -/
theorem length?_eq_some_iff {n : Nat} :
    l.length? = some n ↔
      n = l.positional + l.fields.length ∧ l.positional + l.fields.length < slotLimit := by
  by_cases h : l.positional + l.fields.length < slotLimit
  · simp [length?, h, eq_comm]
  · simp [length?, h]

/-- The program stops if the number of slots is no word. -/
theorem length?_eq_none_iff :
    l.length? = none ↔ slotLimit ≤ l.positional + l.fields.length := by
  rw [length?, ite_eq_right_iff, ← Nat.not_lt]
  exact imp_congr_right fun _ => iff_of_false (Option.some_ne_none _) id

/-- Only the layout without members has no slots. -/
theorem isEmpty?_eq_some_true_iff :
    l.isEmpty? = some true ↔ l.positional = 0 ∧ l.fields.length = 0 := by
  have hlimit : 0 < slotLimit := by decide
  simp only [isEmpty?, Option.map_eq_some_iff, length?_eq_some_iff, beq_iff_eq]
  constructor
  · rintro ⟨n, ⟨hn, -⟩, hzero⟩
    omega
  · rintro ⟨hpositional, hfields⟩
    exact ⟨0, ⟨by omega, by omega⟩, rfl⟩

end words

/-! ### The listing of the slots -/

/-- The slots are listed by ascending symbol. -/
theorem slots_ascending (l : Layout) : l.slots.Pairwise fun a b => a.1.id < b.1.id :=
  FieldIndex.ascending_of_build l.index_built

/-- The listing shows the declaration, with the fields counted from the positional members on. -/
theorem slots_perm_zipIdx (l : Layout) : l.slots.Perm (l.fields.zipIdx l.positional) := by
  rw [slots, FieldIndex.entries_of_build l.index_built]
  exact sortByKey_perm _

/-- No two fields share a slot. -/
theorem nodup_map_snd_slots (l : Layout) : (l.slots.map Prod.snd).Nodup := by
  rw [(l.slots_perm_zipIdx.map Prod.snd).nodup_iff, List.zipIdx_map_snd]
  exact List.nodup_range'

/-- A declaration that fits into the machine words is computed without a stop, and has an index
exactly if it names no field twice. The index lists the fields in strictly ascending order with the
slots of their positions, and each way to ask for a field finds it at its position, or finds nothing
if it is not declared. -/
theorem build_indexes_declaration {positional : Nat} {fields : List Symbol}
    (h : positional + fields.length < slotLimit) (tag : Option Symbol) :
    tryBuild positional fields tag = some (build positional fields tag) ∧
    ((∃ e, build positional fields tag = .error e) ↔ ¬fields.Nodup) ∧
    ∀ l, build positional fields tag = .ok l →
      (l.slots.Pairwise fun a b => a.1.id < b.1.id) ∧
      l.slots.Perm (fields.zipIdx positional) ∧
      ∀ f, (∀ i : Nat, l.slotOf? f = some (positional + i) ↔ fields[i]? = some f) ∧
        (l.slotOf? f = none ↔ f ∉ fields) ∧
        l.hasField f = (l.slotOf? f).isSome ∧ l.index.contains f = (l.slotOf? f).isSome := by
  refine ⟨tryBuild_eq_build (slotsAreWords_iff.mpr (.inr (Nat.le_of_lt h))) tag, ?_⟩
  cases hrepeated : repeatedField? fields with
  | some g =>
      rw [build_eq_error hrepeated]
      exact ⟨iff_of_true ⟨_, rfl⟩ (not_nodup_of_repeatedField? hrepeated), nofun⟩
  | none =>
      have hnodup := repeatedField?_eq_none_iff.mp hrepeated
      rw [build_eq_ok hnodup]
      refine ⟨iff_of_false nofun (not_not_intro hnodup), ?_⟩
      rintro _ ⟨⟩
      refine ⟨slots_ascending _, slots_perm_zipIdx _, fun f =>
        ⟨fun i => ?_, slotOf?_eq_none_iff _, rfl, rfl⟩⟩
      rw [slotOf?_eq_some_iff]
      constructor
      · rintro ⟨j, hj, hij⟩
        rwa [Nat.add_left_cancel hij]
      · exact fun hi => ⟨i, hi, rfl⟩

/-- Three fields behind two positional members, declared in no particular order. -/
theorem build_indexes_declaration_of_three_fields :
    ∃ l, build 2 [⟨7⟩, ⟨3⟩, ⟨5⟩] none = .ok l ∧
      l.slots = [(⟨3⟩, 3), (⟨5⟩, 4), (⟨7⟩, 2)] ∧ l.slotOf? ⟨5⟩ = some 4 ∧
      l.slotOf? ⟨1⟩ = none ∧ l.slotOf? ⟨4⟩ = none ∧ l.slotOf? ⟨9⟩ = none := by
  obtain ⟨-, hfails, hindex⟩ := build_indexes_declaration
    (show 2 + ([⟨7⟩, ⟨3⟩, ⟨5⟩] : List Symbol).length < slotLimit by decide) none
  cases hbuild : build 2 [⟨7⟩, ⟨3⟩, ⟨5⟩] none with
  | error e => exact absurd (hfails.mp ⟨e, hbuild⟩) (by decide)
  | ok l =>
      obtain ⟨hascending, hperm, hfind⟩ := hindex l hbuild
      refine ⟨l, rfl, ?_, ((hfind ⟨5⟩).1 2).mpr rfl, (hfind ⟨1⟩).2.1.mpr (by decide),
        (hfind ⟨4⟩).2.1.mpr (by decide), (hfind ⟨9⟩).2.1.mpr (by decide)⟩
      refine (hperm.trans (by decide)).eq_of_pairwise ?_ hascending (by decide)
      intro a b _ _ hab hba
      exact absurd hab (Nat.lt_asymm hba)

end Layout

end TaggedTuple
