import Mathlib.Data.List.Forall2
import Mathlib.Data.List.Induction
import Mathlib.Data.List.Nodup
import Mathlib.Data.Option.Basic

/-!
# Association lists without repeated keys

With distinct keys an association list is a finite map: `List.lookup` finds exactly the pairs that
the list holds, in whatever order it holds them. Two lists with the same keys are related value by
value exactly when all their look-ups are (`forall₂_snd_iff_lookup`).

Keys that come up one after the other are distinct once only their first occurrences are kept
(`nodup_eraseDups`).
-/

namespace TaggedTuple

variable {α β κ : Type} [DecidableEq κ]

/-- One more element is one more first occurrence, unless it occurred before. -/
theorem eraseDups_concat (l : List κ) (k : κ) :
    (l ++ [k]).eraseDups = l.eraseDups ++ if k ∈ l then [] else [k] := by
  rw [List.eraseDups_append]
  by_cases hk : k ∈ l <;> simp [List.removeAll, hk, List.eraseDups_cons]

/-- Without its later duplicates a list has none. -/
theorem nodup_eraseDups (l : List κ) : l.eraseDups.Nodup := by
  induction l using List.reverseRecOn with
  | nil => exact List.nodup_nil
  | append_singleton l k ih =>
      rw [eraseDups_concat]
      split_ifs with hk
      · rwa [List.append_nil]
      · rw [← List.concat_eq_append]
        exact ih.concat fun hmem => hk (List.mem_eraseDups.mp hmem)

/-- What is looked up is in the list, even if it is not the only value of its key. -/
theorem mem_of_lookup_eq_some {l : List (κ × α)} {k : κ} {a : α} (h : l.lookup k = some a) :
    (k, a) ∈ l := by
  obtain ⟨l₁, l₂, rfl, -⟩ := List.lookup_eq_some_iff.mp h
  exact List.mem_append_right _ List.mem_cons_self

/-- With distinct keys, looking a key up finds exactly the value that stands with it. -/
theorem lookup_eq_some_iff_mem {l : List (κ × α)} (h : (l.map Prod.fst).Nodup) {k : κ} {a : α} :
    l.lookup k = some a ↔ (k, a) ∈ l := by
  induction l with
  | nil => simp
  | cons x l ih =>
      obtain ⟨k', a'⟩ := x
      obtain ⟨hk', hl⟩ := List.nodup_cons.mp h
      by_cases hk : k = k'
      · subst hk
        rw [List.lookup_cons_self, List.mem_cons]
        constructor
        · rintro ⟨⟩
          exact .inl rfl
        · rintro (heq | hmem)
          · cases heq
            rfl
          · exact absurd (List.mem_map.mpr ⟨_, hmem, rfl⟩) hk'
      · simp [List.lookup_cons, beq_false_of_ne hk, ih hl, hk]

/-- A look-up succeeds for the keys of the list. -/
theorem lookup_isSome_iff_mem_keys {l : List (κ × α)} {k : κ} :
    (l.lookup k).isSome = true ↔ k ∈ l.map Prod.fst := by
  rw [List.lookup_isSome_iff, List.mem_map]
  constructor
  · rintro ⟨x, hx, hk⟩
    exact ⟨x, hx, (beq_iff_eq.mp hk).symm⟩
  · rintro ⟨x, hx, rfl⟩
    exact ⟨x, hx, beq_self_eq_true _⟩

/-- A look-up fails for all other keys. -/
theorem lookup_eq_none_iff_not_mem_keys {l : List (κ × α)} {k : κ} :
    l.lookup k = none ↔ k ∉ l.map Prod.fst := by
  rw [← lookup_isSome_iff_mem_keys, Option.not_isSome_iff_eq_none]

/-- Lists with the same keys and related values, pair by pair, have related look-ups. -/
theorem lookup_rel {r : α → β → Prop} {l : List (κ × α)} {m : List (κ × β)}
    (h : List.Forall₂ (fun x y => x.1 = y.1 ∧ r x.2 y.2) l m) (k : κ) :
    Option.Rel r (l.lookup k) (m.lookup k) := by
  induction h with
  | nil => exact .none
  | @cons x y _ _ hxy _ ih =>
      obtain ⟨k', a⟩ := x
      obtain ⟨k'', b⟩ := y
      obtain ⟨rfl, hab⟩ : k' = k'' ∧ r a b := hxy
      rw [List.lookup_cons, List.lookup_cons]
      cases k == k' with
      | true => exact .some hab
      | false => exact ih

/-- What a look-up finds does not depend on the order of the list. -/
theorem lookup_eq_of_perm {l m : List (κ × α)} (hl : (l.map Prod.fst).Nodup) (h : l.Perm m)
    (k : κ) : l.lookup k = m.lookup k := by
  have hm : (m.map Prod.fst).Nodup := (h.map Prod.fst).nodup_iff.mp hl
  apply Option.ext
  intro a
  rw [lookup_eq_some_iff_mem hl, lookup_eq_some_iff_mem hm, h.mem_iff]

/-- Lists in which every look-up finds the same hold the same pairs. -/
theorem perm_of_lookup_eq {l m : List (κ × α)} (hl : (l.map Prod.fst).Nodup)
    (hm : (m.map Prod.fst).Nodup) (h : ∀ k, l.lookup k = m.lookup k) : l.Perm m := by
  rw [List.perm_ext_iff_of_nodup hl.of_map hm.of_map]
  rintro ⟨k, a⟩
  rw [← lookup_eq_some_iff_mem hl, ← lookup_eq_some_iff_mem hm, h]

omit [DecidableEq κ] in
/-- Distinct keys stay distinct when they are paired up with values. -/
theorem nodup_keys_zip {ks : List κ} (h : ks.Nodup) (as : List α) :
    ((ks.zip as).map Prod.fst).Nodup := by
  have hsub : ((ks.zip as).map Prod.fst).Sublist ks := by
    clear h
    induction ks generalizing as with
    | nil => simp
    | cons k ks ih =>
        cases as with
        | nil => simp
        | cons a as => exact (ih as).cons_cons k
  exact h.sublist hsub

/-- Keys and values that are paired up are found by position. -/
theorem lookup_zip_eq_some_iff {ks : List κ} (h : ks.Nodup) {as : List α} {k : κ}
    {a : α} : (ks.zip as).lookup k = some a ↔ ∃ i : Nat, ks[i]? = some k ∧ as[i]? = some a := by
  rw [lookup_eq_some_iff_mem (nodup_keys_zip h as), List.mem_iff_getElem?]
  simp [List.getElem?_zip_eq_some]

/-- Lists with the same keys are related value by value exactly when their look-ups are. -/
theorem forall₂_snd_iff_lookup {r : α → β → Prop} {l : List (κ × α)} {m : List (κ × β)}
    (hkeys : l.map Prod.fst = m.map Prod.fst) (hl : (l.map Prod.fst).Nodup) :
    List.Forall₂ r (l.map Prod.snd) (m.map Prod.snd) ↔
      ∀ k, Option.Rel r (l.lookup k) (m.lookup k) := by
  induction l generalizing m with
  | nil =>
      obtain rfl : m = [] := by simpa using hkeys.symm
      simp [Option.rel_none_none]
  | cons x l ih =>
      obtain ⟨k, a⟩ := x
      cases m with
      | nil => simp at hkeys
      | cons y m =>
          obtain ⟨k', b⟩ := y
          simp only [List.map_cons, List.cons.injEq] at hkeys
          obtain ⟨rfl, hkeys⟩ := hkeys
          obtain ⟨hk, hl⟩ := List.nodup_cons.mp hl
          simp only [List.map_cons, List.forall₂_cons, ih hkeys hl]
          constructor
          · rintro ⟨hab, hrest⟩ k'
            by_cases hk' : k' = k
            · subst hk'
              simpa [List.lookup_cons_self] using Option.Rel.some hab
            · simpa [List.lookup_cons, beq_false_of_ne hk'] using hrest k'
          · intro h
            refine ⟨?_, fun k' => ?_⟩
            · simpa [List.lookup_cons_self] using h k
            · by_cases hk' : k' = k
              · -- the first key stands nowhere else in either list
                subst hk'
                rw [lookup_eq_none_iff_not_mem_keys.mpr hk,
                  lookup_eq_none_iff_not_mem_keys.mpr (hkeys ▸ hk)]
                exact .none
              · simpa [List.lookup_cons, beq_false_of_ne hk'] using h k'

omit [DecidableEq κ] in
/-- Lists with the same keys and related values, pair by pair. -/
theorem forall₂_pairs_iff {r : α → β → Prop} {l : List (κ × α)} {m : List (κ × β)} :
    List.Forall₂ (fun x y => x.1 = y.1 ∧ r x.2 y.2) l m ↔
      l.map Prod.fst = m.map Prod.fst ∧ List.Forall₂ r (l.map Prod.snd) (m.map Prod.snd) := by
  induction l generalizing m with
  | nil => cases m <;> simp
  | cons x l ih =>
      cases m with
      | nil => simp
      | cons y m =>
          simp only [List.forall₂_cons, List.map_cons, List.cons.injEq, ih]
          exact and_and_and_comm

end TaggedTuple
