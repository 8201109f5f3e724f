import TaggedTuple.Layout.FieldIndex
import TaggedTuple.Proofs.Sorting

/-!
# A field index finds the slots of the declared fields

`FieldIndex.build` fails exactly on declarations that name a field twice, and then reports the
field that `repeatedField?` singles out: the least one (`repeatedField?_eq_some_iff`). The index
that it builds holds the declared fields in strictly ascending order, and the binary search over
them answers with the slot that the declaration gives to a field (`find?_eq_some_iff`), whatever the
order of the declaration.
-/

namespace TaggedTuple

/-- The least field that a declaration names twice, if there is one. -/
def repeatedField? (fields : List Symbol) : Option Symbol :=
  firstRepeatedKey? id (sortByKey id fields)

/-- No field is found to repeat when none does. -/
theorem repeatedField?_eq_none_iff {fields : List Symbol} :
    repeatedField? fields = none ↔ fields.Nodup := by
  unfold repeatedField?
  rw [firstRepeatedKey?_sortByKey_eq_none_iff, List.map_id]

/-- The field that is found to repeat is listed. -/
theorem mem_of_repeatedField? {fields : List Symbol} {f : Symbol}
    (h : repeatedField? fields = some f) : f ∈ fields := by
  have hmem := mem_of_firstRepeatedKey? h
  rwa [List.map_id, mem_sortByKey] at hmem

/-- A field that is found to repeat does so. -/
theorem not_nodup_of_repeatedField? {fields : List Symbol} {f : Symbol}
    (h : repeatedField? fields = some f) : ¬fields.Nodup := by
  rw [← repeatedField?_eq_none_iff, h]
  exact Option.some_ne_none f

/-- The field stands in the list more than once, and no smaller field does. -/
structure LeastRepeated (fields : List Symbol) (f : Symbol) : Prop where
  repeated : 2 ≤ fields.count f
  least : ∀ g, 2 ≤ fields.count g → f.id ≤ g.id

namespace LeastRepeated

variable {fields fields' : List Symbol} {f g : Symbol}

/-- There is one least field that repeats. -/
theorem eq (hf : LeastRepeated fields f) (hg : LeastRepeated fields g) : f = g := by
  have hid : f.id = g.id := Nat.le_antisymm (hf.least g hg.repeated) (hg.least f hf.repeated)
  cases f
  cases g
  simp_all

/-- If there is a least field that repeats, one does. -/
theorem not_nodup (hf : LeastRepeated fields f) : ¬fields.Nodup := by
  intro hnodup
  have hcount := List.nodup_iff_count_le_one.mp hnodup f
  have hrepeated := hf.repeated
  omega

/-- The order of the fields makes no difference. -/
theorem of_perm (hf : LeastRepeated fields f) (h : fields.Perm fields') :
    LeastRepeated fields' f where
  repeated := h.count_eq f ▸ hf.repeated
  least g hg := hf.least g ((h.count_eq g).symm ▸ hg)

end LeastRepeated

/-- The field that is found to repeat is the least one. -/
theorem repeatedField?_eq_some_iff {fields : List Symbol} {f : Symbol} :
    repeatedField? fields = some f ↔ LeastRepeated fields f := by
  have hsome : ∀ g, repeatedField? fields = some g → LeastRepeated fields g := by
    intro g hg
    obtain ⟨hdup, hleast⟩ := duplicate_of_firstRepeatedKey? (sortByKey_pairwise fields) hg
    simp only [List.map_id, List.duplicate_iff_two_le_count, (sortByKey_perm fields).count_eq]
      at hdup hleast
    exact ⟨hdup, fun j hj => Nat.le_of_not_lt (hleast j hj)⟩
  refine ⟨hsome f, fun hf => ?_⟩
  cases hrepeated : repeatedField? fields with
  | none => exact absurd (repeatedField?_eq_none_iff.mp hrepeated) hf.not_nodup
  | some g => rw [(hsome g hrepeated).eq hf]

/-- Among fields that stand in the list more than once there is a least one. -/
theorem exists_leastRepeated_iff {fields : List Symbol} :
    (∃ f, LeastRepeated fields f) ↔ ∃ f, 2 ≤ fields.count f := by
  constructor
  · rintro ⟨f, hf⟩
    exact ⟨f, hf.repeated⟩
  · rintro ⟨f, hf⟩
    cases hrepeated : repeatedField? fields with
    | none =>
        have hnodup := repeatedField?_eq_none_iff.mp hrepeated
        exact absurd (List.nodup_iff_count_le_one.mp hnodup f) (Nat.not_le_of_lt hf)
    | some g => exact ⟨g, repeatedField?_eq_some_iff.mp hrepeated⟩

namespace FieldIndex

/-! ### Building -/

section build

variable {positional : Nat} {fields : List Symbol} {x : FieldIndex}

/-- The declared fields with their slots, in ascending order. -/
theorem map_fst_sortByKey_zipIdx (positional : Nat) (fields : List Symbol) :
    (sortByKey Prod.fst (fields.zipIdx positional)).map Prod.fst = sortByKey id fields := by
  rw [map_key_sortByKey, List.zipIdx_map_fst]

/-- The search for a repeated field does not depend on the slots. -/
theorem firstRepeatedKey?_zipIdx (positional : Nat) (fields : List Symbol) :
    firstRepeatedKey? Prod.fst (sortByKey Prod.fst (fields.zipIdx positional))
      = repeatedField? fields := by
  rw [firstRepeatedKey?_eq_map, map_fst_sortByKey_zipIdx, repeatedField?]

/-- A list with a repeated field has no index. -/
theorem build_eq_error {f : Symbol} (h : repeatedField? fields = some f) (positional : Nat) :
    build positional fields = .error (.duplicateField f) := by
  simp only [build, firstRepeatedKey?_zipIdx, h]

/-- The index of distinct fields is their sorted list with the slots. -/
theorem build_eq_ok (h : fields.Nodup) (positional : Nat) :
    build positional fields
      = .ok ⟨(sortByKey Prod.fst (fields.zipIdx positional)).toArray⟩ := by
  simp only [build, firstRepeatedKey?_zipIdx, repeatedField?_eq_none_iff.mpr h]

/-- A declaration that has an index names no field twice. -/
theorem nodup_of_build (h : build positional fields = .ok x) : fields.Nodup := by
  rw [← repeatedField?_eq_none_iff]
  cases hf : repeatedField? fields with
  | none => rfl
  | some f =>
      rw [build_eq_error hf] at h
      cases h

/-- The entries of an index are the declared fields with their slots, in ascending order. -/
theorem entries_of_build (h : build positional fields = .ok x) :
    x.entries.toList = sortByKey Prod.fst (fields.zipIdx positional) := by
  rw [build_eq_ok (nodup_of_build h)] at h
  cases h
  rfl

/-- The index lists the fields in ascending order. -/
theorem symbols_of_build (h : build positional fields = .ok x) :
    x.symbols = sortByKey id fields := by
  rw [symbols, entries_of_build h, map_fst_sortByKey_zipIdx]

/-- The entries of an index ascend strictly. -/
theorem ascending_of_build (h : build positional fields = .ok x) :
    x.entries.toList.Pairwise fun a b => a.1 < b.1 := by
  rw [entries_of_build h]
  apply sortByKey_ascending
  rw [List.zipIdx_map_fst]
  exact nodup_of_build h

end build

/-! ### Searching -/

section search

variable {entries : Array (Symbol × Nat)} {field : Symbol}

/-- What the search returns stands in the searched window, under the field. -/
theorem exists_of_search {low high position : Nat} {high_le : high ≤ entries.size}
    (h : search entries field low high high_le = some position) :
    ∃ i, low ≤ i ∧ i < high ∧ entries[i]? = some (field, position) := by
  fun_induction search entries field low high high_le with
  | case1 low high high_le hlt middle middle_lt entry heq =>
      refine ⟨middle, by omega, by omega, ?_⟩
      rw [Array.getElem?_eq_getElem middle_lt]
      cases h
      exact congrArg some (Prod.ext heq rfl)
  | case2 low high high_le hlt middle middle_lt entry hne hlt' ih =>
      obtain ⟨i, hi, hi', hget⟩ := ih h
      exact ⟨i, by omega, hi', hget⟩
  | case3 low high high_le hlt middle middle_lt entry hne hlt' ih =>
      obtain ⟨i, hi, hi', hget⟩ := ih h
      exact ⟨i, hi, by omega, hget⟩
  | case4 low high high_le hlt => cases h

/-- In ascending entries the search finds every field of the window. -/
theorem search_eq_some (hentries : entries.toList.Pairwise fun a b => a.1 < b.1)
    {low high i position : Nat} {high_le : high ≤ entries.size} (hlow : low ≤ i) (hhigh : i < high)
    (hget : entries[i]? = some (field, position)) :
    search entries field low high high_le = some position := by
  have hascending : ∀ j k (hj : j < entries.size) (hk : k < entries.size), j < k →
      entries[j].1 < entries[k].1 := by
    intro j k hj hk hjk
    exact List.pairwise_iff_getElem.mp hentries j k (by simpa using hj) (by simpa using hk) hjk
  obtain ⟨hi, hentry⟩ := Array.getElem?_eq_some_iff.mp hget
  fun_induction search entries field low high high_le with
  | case1 low high high_le hlt middle middle_lt entry heq =>
      -- equal fields stand at equal positions
      have hmiddle : middle = i := by
        rcases Nat.lt_trichotomy middle i with hlt' | heq' | hgt
        · have := hascending middle i middle_lt hi hlt'
          rw [hentry] at this
          exact absurd this (heq ▸ irrefl_of (· < ·) _)
        · exact heq'
        · have := hascending i middle hi middle_lt hgt
          rw [hentry] at this
          exact absurd this (heq ▸ irrefl_of (· < ·) _)
      subst hmiddle
      exact congrArg (fun e => some e.2) hentry
  | case2 low high high_le hlt middle middle_lt entry hne hlt' ih =>
      apply ih _ hhigh
      by_contra hle
      rcases Nat.lt_or_eq_of_le (show i ≤ middle by omega) with hlt'' | rfl
      · have := hascending i middle hi middle_lt hlt''
        rw [hentry] at this
        exact absurd this (asymm hlt')
      · exact hne (congrArg Prod.fst hentry)
  | case3 low high high_le hlt middle middle_lt entry hne hlt' ih =>
      apply ih hlow
      by_contra hle
      rcases Nat.lt_or_eq_of_le (show middle ≤ i by omega) with hlt'' | rfl
      · have := hascending middle i middle_lt hi hlt''
        rw [hentry] at this
        exact hlt' this
      · exact hne (congrArg Prod.fst hentry)
  | case4 low high high_le hlt => omega

end search

section find

variable {positional : Nat} {fields : List Symbol} {x : FieldIndex} {field : Symbol}

/-- A built index finds a field at a slot exactly when the declaration gives it that slot. -/
theorem find?_eq_some_iff (h : build positional fields = .ok x) {slot : Nat} :
    x.find? field = some slot ↔ ∃ i : Nat, fields[i]? = some field ∧ slot = positional + i := by
  have hmem : (field, slot) ∈ x.entries.toList ↔
      ∃ i : Nat, fields[i]? = some field ∧ slot = positional + i := by
    rw [entries_of_build h, mem_sortByKey, List.mem_zipIdx_iff_le_and_getElem?_sub]
    constructor
    · exact fun ⟨hle, hget⟩ => ⟨slot - positional, hget, (Nat.add_sub_cancel' hle).symm⟩
    · rintro ⟨i, hget, rfl⟩
      exact ⟨Nat.le_add_right _ _, by rwa [Nat.add_sub_cancel_left]⟩
  rw [← hmem]
  unfold find?
  constructor
  · intro hfind
    obtain ⟨i, -, -, hget⟩ := exists_of_search hfind
    exact List.mem_of_getElem? (by rwa [Array.getElem?_toList])
  · intro hentry
    obtain ⟨i, hget⟩ := List.mem_iff_getElem?.mp hentry
    rw [Array.getElem?_toList] at hget
    obtain ⟨hi, -⟩ := Array.getElem?_eq_some_iff.mp hget
    exact search_eq_some (ascending_of_build h) (Nat.zero_le i) hi hget

/-- A built index holds exactly the declared fields. -/
theorem contains_iff (h : build positional fields = .ok x) :
    x.contains field = true ↔ field ∈ fields := by
  unfold contains
  rw [Option.isSome_iff_exists, List.mem_iff_getElem?]
  constructor
  · rintro ⟨slot, hfind⟩
    obtain ⟨i, hget, -⟩ := (find?_eq_some_iff h).mp hfind
    exact ⟨i, hget⟩
  · exact fun ⟨i, hget⟩ => ⟨positional + i, (find?_eq_some_iff h).mpr ⟨i, hget, rfl⟩⟩

end find

end FieldIndex

end TaggedTuple
