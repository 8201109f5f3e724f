import Mathlib.Data.List.Forall2

/-!
# Taking a text apart

A text put together from parts can be taken apart again when it shows where each part ends. A word
ends at the first character that is a stop (`append_inj_of_endsAt`). Parts with a separator between
them are found one after the other when each part is, given that it is followed by the separator or
by what follows the last part (`forall₂_of_intercalate_append_eq`).
-/

namespace TaggedTuple

variable {α β : Type} {stops stops' : List α}

/-- The text is over or goes on with one of the given characters. -/
def EndsAt (stops text : List α) : Prop := ∀ c ∈ text.head?, c ∈ stops

/-- A text that is over ends anywhere. -/
theorem endsAt_nil : EndsAt stops [] := nofun

/-- What follows is decided by the first character. -/
@[simp]
theorem endsAt_cons_iff {c : α} {text : List α} : EndsAt stops (c :: text) ↔ c ∈ stops := by
  simp [EndsAt]

/-- More characters may follow where fewer may. -/
theorem EndsAt.mono {text : List α} (h : EndsAt stops text) (hsub : stops ⊆ stops') :
    EndsAt stops' text :=
  fun c hc => hsub (h c hc)

/-- Two words without stops that are followed by a stop are the same when the texts are. -/
theorem append_inj_of_endsAt {w w' text text' : List α} (hw : ∀ c ∈ w, c ∉ stops)
    (hw' : ∀ c ∈ w', c ∉ stops) (htext : EndsAt stops text) (htext' : EndsAt stops text')
    (h : w ++ text = w' ++ text') : w = w' ∧ text = text' := by
  induction w generalizing w' with
  | nil =>
      cases w' with
      | nil => exact ⟨rfl, h⟩
      | cons c w' =>
          rw [List.nil_append, List.cons_append] at h
          rw [h, endsAt_cons_iff] at htext
          exact absurd htext (hw' c List.mem_cons_self)
  | cons c w ih =>
      cases w' with
      | nil =>
          rw [List.nil_append, List.cons_append] at h
          rw [← h, endsAt_cons_iff] at htext'
          exact absurd htext' (hw c List.mem_cons_self)
      | cons c' w' =>
          rw [List.cons_append, List.cons_append, List.cons.injEq] at h
          obtain ⟨rfl, h⟩ := h
          obtain ⟨rfl, rfl⟩ := ih (fun d hd => hw d (List.mem_cons_of_mem _ hd))
            (fun d hd => hw' d (List.mem_cons_of_mem _ hd)) h
          exact ⟨rfl, rfl⟩

section separated

variable {f : β → List α} {sep : List α} {r : β → β → Prop}

/-- A separator stands between the first text and those behind it. -/
theorem intercalate_map_cons_cons (x y : β) (xs : List β) :
    sep.intercalate ((x :: y :: xs).map f)
      = f x ++ (sep ++ sep.intercalate ((y :: xs).map f)) := by
  rw [List.map_cons, List.map_cons, List.intercalate_cons_cons, List.append_assoc]

/-- Parts with a separator between them are related one by one when each pair of parts is that is
followed by a separator or by the rest of the text. The rest must not look like one more part. -/
theorem forall₂_of_intercalate_append_eq {text text' : List α}
    (hsep : ∀ more, EndsAt stops (sep ++ more)) (htext : EndsAt stops text)
    (htext' : EndsAt stops text') (hmore : ∀ more, text ≠ sep ++ more)
    (hmore' : ∀ more, text' ≠ sep ++ more) {xs ys : List β} (hxs : xs ≠ []) (hys : ys ≠ [])
    (part : ∀ x ∈ xs, ∀ y ∈ ys, ∀ rest rest', EndsAt stops rest → EndsAt stops rest' →
      f x ++ rest = f y ++ rest' → r x y ∧ rest = rest')
    (h : sep.intercalate (xs.map f) ++ text = sep.intercalate (ys.map f) ++ text') :
    List.Forall₂ r xs ys ∧ text = text' := by
  induction xs generalizing ys with
  | nil => exact absurd rfl hxs
  | cons x xs ih =>
      cases ys with
      | nil => exact absurd rfl hys
      | cons y ys =>
          have hxy := part x List.mem_cons_self y List.mem_cons_self
          cases xs with
          | nil =>
              rw [List.map_singleton, List.intercalate_singleton] at h
              cases ys with
              | nil =>
                  rw [List.map_singleton, List.intercalate_singleton] at h
                  obtain ⟨hr, rfl⟩ := hxy text text' htext htext' h
                  exact ⟨.cons hr .nil, rfl⟩
              | cons y' ys =>
                  rw [intercalate_map_cons_cons, List.append_assoc, List.append_assoc] at h
                  exact absurd (hxy _ _ htext (hsep _) h).2 (hmore _)
          | cons x' xs =>
              rw [intercalate_map_cons_cons, List.append_assoc, List.append_assoc] at h
              cases ys with
              | nil =>
                  rw [List.map_singleton, List.intercalate_singleton] at h
                  exact absurd (hxy _ _ (hsep _) htext' h).2.symm (hmore' _)
              | cons y' ys =>
                  rw [intercalate_map_cons_cons, List.append_assoc, List.append_assoc] at h
                  obtain ⟨hr, hrest⟩ := hxy _ _ (hsep _) (hsep _) h
                  have hlater := ih (List.cons_ne_nil _ _) (List.cons_ne_nil _ _)
                    (fun a ha b hb => part a (List.mem_cons_of_mem _ ha) b
                      (List.mem_cons_of_mem _ hb)) (List.append_cancel_left hrest)
                  exact ⟨.cons hr hlater.1, hlater.2⟩

end separated

/-- What stands behind every part may as well stand before every part and once at the end. -/
theorem append_flatMap_append (sep : List α) (f : β → List α) (xs : List β) :
    sep ++ xs.flatMap (fun x => f x ++ sep) = xs.flatMap (fun x => sep ++ f x) ++ sep := by
  induction xs with
  | nil => rw [List.flatMap_nil, List.flatMap_nil, List.append_nil, List.nil_append]
  | cons x xs ih =>
      rw [List.flatMap_cons, List.flatMap_cons, List.append_assoc, List.append_assoc, ih,
        List.append_assoc]

/-- Parts that are separated texts themselves may be put into one row. -/
theorem intercalate_flatMap {sep : String} {parts : β → List String} {xs : List β}
    (h : ∀ x ∈ xs, parts x ≠ []) :
    sep.intercalate (xs.flatMap parts)
      = sep.intercalate (xs.map fun x => sep.intercalate (parts x)) := by
  induction xs with
  | nil => rfl
  | cons x xs ih =>
      have htail := ih fun y hy => h y (List.mem_cons_of_mem _ hy)
      cases xs with
      | nil =>
          rw [List.flatMap_singleton, List.map_singleton, String.intercalate_singleton]
      | cons y xs =>
          have hne : (y :: xs).flatMap parts ≠ [] := by
            rw [List.flatMap_cons]
            exact List.append_ne_nil_of_left_ne_nil
              (h y (List.mem_cons_of_mem _ List.mem_cons_self)) _
          rw [List.flatMap_cons, List.map_cons,
            String.intercalate_append_of_ne_nil (h x List.mem_cons_self) hne, htail,
            String.intercalate_cons_of_ne_nil (by simp)]

end TaggedTuple
