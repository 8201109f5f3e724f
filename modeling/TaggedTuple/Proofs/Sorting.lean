import Mathlib.Data.List.Duplicate
import Mathlib.Data.List.Sort
import Mathlib.Data.String.Basic
import TaggedTuple.Sorting
import TaggedTuple.Symbol

/-!
# Sorting by a key, its laws

`sortByKey` is the library's insertion sort (`sortByKey_eq_insertionSort`), so it permutes its list
and puts it in ascending order, strictly so when no key repeats (`sortByKey_ascending`). Hence the
result depends on the members alone as long as their keys are distinct (`sortByKey_eq_of_perm`). On
a sorted list the search for equal neighbours finds a repeated key whenever there is one
(`firstRepeatedKey?_sortByKey_eq_none_iff`), and the least one (`duplicate_of_firstRepeatedKey?`).

The order laws need a strict total order on the keys, which symbols and strings have.
-/

set_option linter.unusedSectionVars false

namespace TaggedTuple

instance : IsStrictTotalOrder Symbol (· < ·) where
  trichotomous a b hab hba := by
    have hid : a.id = b.id := Nat.le_antisymm (Nat.le_of_not_lt hba) (Nat.le_of_not_lt hab)
    cases a; cases b; simp_all
  irrefl a := Nat.lt_irrefl a.id
  trans _ _ _ hab hbc := Nat.lt_trans hab hbc

/-- The search for a repeated key looks at the keys only. -/
theorem firstRepeatedKey?_eq_map {α κ : Type} [DecidableEq κ] {key : α → κ} (l : List α) :
    firstRepeatedKey? key l = firstRepeatedKey? id (l.map key) := by
  induction l with
  | nil => rfl
  | cons a l ih =>
      cases l with
      | nil => rfl
      | cons b l =>
          simp only [firstRepeatedKey?, List.map_cons, id_eq] at ih ⊢
          rw [ih]

/-- A repeated key is a key. -/
theorem mem_of_firstRepeatedKey? {α κ : Type} [DecidableEq κ] {key : α → κ} {l : List α} {k : κ}
    (h : firstRepeatedKey? key l = some k) : k ∈ l.map key := by
  induction l with
  | nil => cases h
  | cons a l ih =>
      cases l with
      | nil => cases h
      | cons b l =>
          rw [firstRepeatedKey?] at h
          split_ifs at h
          · cases h
            exact List.mem_cons_self
          · exact List.mem_cons_of_mem _ (ih h)

variable {α β κ : Type} [LT κ] [DecidableLT κ] {key : α → κ}

/-- The relation that sorting establishes: the first key is not above the second one. -/
abbrev NotAbove (key : α → κ) (a b : α) : Prop := ¬key b < key a

/-! ### The members stay the same -/

/-- The insertion of an element is the library's, by the order of the keys. -/
theorem insertByKey_eq_orderedInsert (a : α) (l : List α) :
    insertByKey key a l = l.orderedInsert (NotAbove key) a := by
  induction l with
  | nil => rfl
  | cons b l ih => rw [insertByKey, List.orderedInsert_cons, ih, ite_not]

/-- Sorting by a key is insertion sort by the order of the keys. -/
theorem sortByKey_eq_insertionSort (l : List α) :
    sortByKey key l = l.insertionSort (NotAbove key) := by
  induction l with
  | nil => rfl
  | cons a l ih => rw [sortByKey, List.insertionSort_cons, ih, insertByKey_eq_orderedInsert]

/-- Sorting keeps the members. -/
theorem sortByKey_perm (l : List α) : (sortByKey key l).Perm l := by
  rw [sortByKey_eq_insertionSort]
  exact List.perm_insertionSort _ l

/-- A sorted list has the members that it had. -/
@[simp] theorem mem_sortByKey {a : α} {l : List α} : a ∈ sortByKey key l ↔ a ∈ l :=
  (sortByKey_perm l).mem_iff

/-- A function that keeps the keys commutes with sorting. -/
theorem map_sortByKey {key' : β → κ} {g : α → β} (hg : ∀ a, key' (g a) = key a) (l : List α) :
    (sortByKey key l).map g = sortByKey key' (l.map g) := by
  rw [sortByKey_eq_insertionSort, sortByKey_eq_insertionSort]
  exact List.map_insertionSort _ _ g l fun a _ b _ => by rw [NotAbove, NotAbove, hg, hg]

/-- The keys of a sorted list are the sorted keys. -/
theorem map_key_sortByKey (l : List α) : (sortByKey key l).map key = sortByKey id (l.map key) :=
  @map_sortByKey α κ κ _ _ key id key (fun _ => rfl) l

/-- Lists that agree member by member, keys included, agree after an insertion. -/
theorem insertByKey_forall₂ {key' : β → κ} {r : α → β → Prop}
    (hr : ∀ a b, r a b → key a = key' b) {a : α} {b : β} (hab : r a b) {l : List α} {m : List β}
    (h : List.Forall₂ r l m) : List.Forall₂ r (insertByKey key a l) (insertByKey key' b m) := by
  induction h with
  | nil => exact .cons hab .nil
  | @cons a' b' l m hab' h ih =>
      unfold insertByKey
      rw [hr a b hab, hr a' b' hab']
      split_ifs
      · exact .cons hab' ih
      · exact .cons hab (.cons hab' h)

/-- Lists that agree member by member, keys included, agree after sorting. -/
theorem sortByKey_forall₂ {key' : β → κ} {r : α → β → Prop}
    (hr : ∀ a b, r a b → key a = key' b) {l : List α} {m : List β} (h : List.Forall₂ r l m) :
    List.Forall₂ r (sortByKey key l) (sortByKey key' m) := by
  induction h with
  | nil => exact .nil
  | cons hab _ ih => exact insertByKey_forall₂ hr hab ih

/-! ### The result is in order -/

section order

variable [IsStrictTotalOrder κ (· < ·)]

instance : Std.Total (NotAbove key) where
  total _ _ := not_and_or.mp fun h => asymm h.1 h.2

instance : IsTrans α (NotAbove key) where
  trans a b c hab hbc hca := by
    -- `c` is below `a`, which is not above `b`
    rcases Std.Trichotomous.rel_or_eq_or_rel_swap (r := (· < ·)) (a := key a) (b := key b)
      with hlt | heq | hlt
    · exact hbc (trans_of (· < ·) hca hlt)
    · exact hbc (heq ▸ hca)
    · exact hab hlt

/-- A sorted list is in order. -/
theorem sortByKey_pairwise (l : List α) :
    (sortByKey key l).Pairwise fun a b => ¬key b < key a := by
  rw [sortByKey_eq_insertionSort]
  exact List.pairwise_insertionSort (NotAbove key) l

/-- Without repeated keys the sorted list is strictly ascending. -/
theorem sortByKey_ascending {l : List α} (h : (l.map key).Nodup) :
    (sortByKey key l).Pairwise fun a b => key a < key b := by
  have hne : (sortByKey key l).Pairwise fun a b => key a ≠ key b := by
    have hnodup : ((sortByKey key l).map key).Nodup :=
      ((sortByKey_perm l).map key).nodup_iff.mpr h
    exact List.pairwise_map.mp hnodup
  refine (sortByKey_pairwise l).imp₂ (fun a b hle hne => ?_) hne
  rcases Std.Trichotomous.rel_or_eq_or_rel_swap (r := (· < ·)) (a := key a) (b := key b)
    with hab | hab | hab
  · exact hab
  · exact absurd hab hne
  · exact absurd hab hle

/-- Strictly ascending lists with the same members are equal. -/
theorem eq_of_perm_of_ascending {l m : List α} (hl : l.Pairwise fun a b => key a < key b)
    (hm : m.Pairwise fun a b => key a < key b) (h : l.Perm m) : l = m :=
  h.eq_of_pairwise (fun _ _ _ _ hab hba => absurd hab (asymm hba)) hl hm

/-- With distinct keys the sorted list depends on the members alone. -/
theorem sortByKey_eq_of_perm {l m : List α} (hl : (l.map key).Nodup) (h : l.Perm m) :
    sortByKey key l = sortByKey key m := by
  have hm : (m.map key).Nodup := (h.map key).nodup_iff.mp hl
  exact eq_of_perm_of_ascending (sortByKey_ascending hl) (sortByKey_ascending hm)
    ((sortByKey_perm l).trans (h.trans (sortByKey_perm m).symm))

/-! ### Repeated keys -/

variable [DecidableEq κ]

/-- In a list in order a key that differs from the next one does not come back. -/
theorem not_mem_keys_of_ne_next {a b : α} {l : List α}
    (h : (a :: b :: l).Pairwise fun a b => ¬key b < key a) (hab : key a ≠ key b) :
    key a ∉ (b :: l).map key := by
  obtain ⟨ha, hl⟩ := List.pairwise_cons.mp h
  intro hmem
  obtain ⟨c, hc, hca⟩ := List.mem_map.mp hmem
  -- a later member with the key of `a` would stand below `b`
  have hlt : key a < key b := by
    rcases Std.Trichotomous.rel_or_eq_or_rel_swap (r := (· < ·)) (a := key a) (b := key b)
      with hlt | heq | hgt
    · exact hlt
    · exact absurd heq hab
    · exact absurd hgt (ha b List.mem_cons_self)
  rcases List.mem_cons.mp hc with rfl | hc
  · exact hab hca.symm
  · exact (List.pairwise_cons.mp hl).1 c hc (hca ▸ hlt)

/-- On a list in order the search fails exactly when no key repeats. -/
theorem firstRepeatedKey?_eq_none_iff {l : List α} (h : l.Pairwise fun a b => ¬key b < key a) :
    firstRepeatedKey? key l = none ↔ (l.map key).Nodup := by
  induction l with
  | nil => simp [firstRepeatedKey?]
  | cons a l ih =>
      cases l with
      | nil => simp [firstRepeatedKey?]
      | cons b l =>
          rw [firstRepeatedKey?, List.map_cons, List.nodup_cons]
          split_ifs with hab
          · simp [hab]
          · rw [ih (List.pairwise_cons.mp h).2, iff_and_self]
            exact fun _ => not_mem_keys_of_ne_next h hab

/-- On a list in order the search finds a key that repeats, and no smaller key does. -/
theorem duplicate_of_firstRepeatedKey? {l : List α} (h : l.Pairwise fun a b => ¬key b < key a)
    {k : κ} (hk : firstRepeatedKey? key l = some k) :
    List.Duplicate k (l.map key) ∧ ∀ j, List.Duplicate j (l.map key) → ¬j < k := by
  induction l with
  | nil => cases hk
  | cons a l ih =>
      cases l with
      | nil => cases hk
      | cons b l =>
          obtain ⟨ha, hl⟩ := List.pairwise_cons.mp h
          rw [firstRepeatedKey?] at hk
          split_ifs at hk with hab
          · obtain rfl : key a = k := Option.some.inj hk
            refine ⟨List.duplicate_cons_self_iff.mpr ?_, fun j hj => ?_⟩
            · rw [hab]
              exact List.mem_cons_self
            · obtain ⟨c, hc, rfl⟩ := List.mem_map.mp hj.mem
              rcases List.mem_cons.mp hc with rfl | hc
              · exact irrefl_of (· < ·) _
              · exact ha c hc
          · obtain ⟨hdup, hleast⟩ := ih hl hk
            refine ⟨hdup.duplicate_cons _, fun j hj => ?_⟩
            rcases List.duplicate_cons_iff.mp hj with ⟨rfl, hmem⟩ | hj
            · exact absurd hmem (not_mem_keys_of_ne_next h hab)
            · exact hleast j hj

/-- After sorting the search fails exactly when no key repeats. -/
theorem firstRepeatedKey?_sortByKey_eq_none_iff (l : List α) :
    firstRepeatedKey? key (sortByKey key l) = none ↔ (l.map key).Nodup := by
  rw [firstRepeatedKey?_eq_none_iff (sortByKey_pairwise l)]
  exact ((sortByKey_perm l).map key).nodup_iff

end order

end TaggedTuple
