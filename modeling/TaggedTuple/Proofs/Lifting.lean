import Mathlib.Data.List.Forall2
import Mathlib.Data.Option.Basic

/-!
# Relations lifted to optional values and lists

`Option.Rel` and `List.Forall₂` carry a relation of members over to containers. The laws here have
to hold of the members at hand only, so that they can be used in an induction over values.
-/

namespace TaggedTuple

variable {α β γ : Type}

/-! ### Optional values -/

/-- Related options are there or not at the same time. -/
theorem isSome_eq_of_rel {r : α → β → Prop} {o : Option α} {o' : Option β}
    (h : Option.Rel r o o') : o.isSome = o'.isSome := by
  cases h <;> rfl

/-- Related options are missing at the same time. -/
theorem eq_none_iff_of_rel {r : α → β → Prop} {o : Option α} {o' : Option β}
    (h : Option.Rel r o o') : o = none ↔ o' = none := by
  cases h <;> simp

/-- An option that is related to a value has one. -/
theorem exists_of_rel_some {r : α → β → Prop} {o : Option α} {b : β} (h : Option.Rel r o (some b)) :
    ∃ a, o = some a ∧ r a b := by
  cases h with
  | some hab => exact ⟨_, rfl, hab⟩

/-- An option that a value is related to has one. -/
theorem exists_of_some_rel {r : α → β → Prop} {a : α} {o : Option β} (h : Option.Rel r (some a) o) :
    ∃ b, o = some b ∧ r a b := by
  cases h with
  | some hab => exact ⟨_, rfl, hab⟩

/-- An option is related to itself if its value is. -/
theorem optionRel_refl {r : α → α → Prop} {o : Option α} (h : ∀ a, o = some a → r a a) :
    Option.Rel r o o := by
  cases o with
  | none => exact .none
  | some a => exact .some (h a rfl)

/-- Related options are related the other way around by the converse. -/
theorem optionRel_flip {r : α → β → Prop} {o : Option α} {o' : Option β} (h : Option.Rel r o o') :
    Option.Rel (fun b a => r a b) o' o := by
  cases h with
  | none => exact .none
  | some hab => exact .some hab

/-- The relation of two options may be replaced by one that their values are in too. -/
theorem optionRel_imp {r s : α → β → Prop} {o : Option α} {o' : Option β} (h : Option.Rel r o o')
    (hrs : ∀ a b, o = some a → o' = some b → r a b → s a b) : Option.Rel s o o' := by
  cases h with
  | none => exact .none
  | some hab => exact .some (hrs _ _ rfl rfl hab)

/-- Relations of options compose if those of their values do. -/
theorem optionRel_trans {r : α → β → Prop} {s : β → γ → Prop} {q : α → γ → Prop} {o : Option α}
    {o' : Option β} {o'' : Option γ} (h : Option.Rel r o o') (h' : Option.Rel s o' o'')
    (hq : ∀ a b c, o = some a → o' = some b → o'' = some c → r a b → s b c → q a c) :
    Option.Rel q o o'' := by
  cases h with
  | none => cases h'; exact .none
  | some hab =>
      cases h' with
      | some hbc => exact .some (hq _ _ _ rfl rfl rfl hab hbc)

/-- A function of the left value may be moved into the relation. -/
theorem optionRel_map_left {r : β → γ → Prop} {g : α → β} {o : Option α} {o' : Option γ} :
    Option.Rel r (o.map g) o' ↔ Option.Rel (fun a => r (g a)) o o' := by
  cases o <;> cases o' <;> simp

/-- Functions of both values may be moved into the relation. -/
theorem optionRel_map_iff {δ : Type} {r : γ → δ → Prop} {f : α → γ} {g : β → δ} {o : Option α}
    {o' : Option β} :
    Option.Rel r (o.map f) (o'.map g) ↔ Option.Rel (fun a b => r (f a) (g b)) o o' := by
  cases o <;> cases o' <;> simp

/-- Continuations with related results have related results on related options. -/
theorem optionRel_bind {α' β' : Type} {r : α → β → Prop} {s : α' → β' → Prop} {o : Option α}
    {o' : Option β} {f : α → Option α'} {g : β → Option β'} (h : Option.Rel r o o')
    (hfg : ∀ a b, r a b → Option.Rel s (f a) (g b)) : Option.Rel s (o.bind f) (o'.bind g) := by
  cases h with
  | none => exact .none
  | some hab => exact hfg _ _ hab

/-- Functions with related results have related results on related options. -/
theorem optionRel_map {α' β' : Type} {r : α → β → Prop} {s : α' → β' → Prop} {o : Option α}
    {o' : Option β} {f : α → α'} {g : β → β'} (h : Option.Rel r o o')
    (hfg : ∀ a b, r a b → s (f a) (g b)) : Option.Rel s (o.map f) (o'.map g) := by
  cases h with
  | none => exact .none
  | some hab => exact .some (hfg _ _ hab)

/-- Functions with related results have related results on each element of a list. -/
theorem optionRel_mapM {α' β' : Type} {s : α' → β' → Prop} {f : α → Option α'}
    {g : α → Option β'} (hfg : ∀ a, Option.Rel s (f a) (g a)) (as : List α) :
    Option.Rel (List.Forall₂ s) (as.mapM f) (as.mapM g) := by
  induction as with
  | nil => exact .some .nil
  | cons a as ih =>
      rw [List.mapM_cons, List.mapM_cons]
      refine optionRel_bind (hfg a) fun b c hbc => ?_
      exact optionRel_bind ih fun bs cs hbcs => .some (.cons hbc hbcs)

/-- What is computed from each member without fail is computed from all of them. -/
theorem mapM_eq_some_map {g : α → Option β} {f : α → β} {l : List α}
    (h : ∀ a ∈ l, g a = some (f a)) : l.mapM g = some (l.map f) := by
  induction l with
  | nil => rfl
  | cons a l ih =>
      rw [List.mapM_cons, h a List.mem_cons_self, ih fun b hb => h b (List.mem_cons_of_mem _ hb)]
      rfl

/-- An action on each element gives all its results, or stops at an error of one of them. -/
theorem mapM_except_cases {ε : Type} (g : α → Except ε β) (as : List α) :
    (∃ bs, as.mapM g = .ok bs ∧ List.Forall₂ (fun a b => g a = .ok b) as bs) ∨
      ∃ a ∈ as, ∃ e, g a = .error e ∧ as.mapM g = .error e := by
  induction as with
  | nil => exact .inl ⟨[], rfl, .nil⟩
  | cons a as ih =>
      rw [List.mapM_cons]
      cases ha : g a with
      | error e => exact .inr ⟨a, List.mem_cons_self, e, ha, rfl⟩
      | ok b =>
          rcases ih with ⟨bs, hmap, hbs⟩ | ⟨a', ha', e, he, herror⟩
          · refine .inl ⟨b :: bs, ?_, .cons ha hbs⟩
            rw [hmap]
            rfl
          · refine .inr ⟨a', List.mem_cons_of_mem _ ha', e, he, ?_⟩
            rw [herror]
            rfl

/-- Two steps in a row succeed when the first does and then the second. -/
theorem bind_eq_ok_iff {ε : Type} {x : Except ε α} {f : α → Except ε β} {b : β} :
    (x >>= f) = .ok b ↔ ∃ a, x = .ok a ∧ f a = .ok b := by
  cases x with
  | error e => simp [bind, Except.bind]
  | ok a => simp [bind, Except.bind]

/-! ### Lists -/

/-- Either all elements of a list have a property, or there is a first one that has not. -/
theorem forall_or_exists_first (P : α → Prop) (as : List α) :
    (∀ a ∈ as, P a) ∨ ∃ done a later, as = done ++ a :: later ∧ (∀ b ∈ done, P b) ∧ ¬P a := by
  induction as with
  | nil => exact .inl fun a ha => absurd ha List.not_mem_nil
  | cons a as ih =>
      by_cases ha : P a
      · rcases ih with hall | ⟨done, b, later, rfl, hdone, hb⟩
        · exact .inl (List.forall_mem_cons.mpr ⟨ha, hall⟩)
        · exact .inr ⟨a :: done, b, later, rfl, List.forall_mem_cons.mpr ⟨ha, hdone⟩, hb⟩
      · exact .inr ⟨[], a, as, rfl, fun b hb => absurd hb List.not_mem_nil, ha⟩

/-- The relation of two lists may be replaced by one that their members are in too. -/
theorem forall₂_imp {r s : α → β → Prop} {as : List α} {bs : List β} (h : List.Forall₂ r as bs)
    (hrs : ∀ a ∈ as, ∀ b ∈ bs, r a b → s a b) : List.Forall₂ s as bs := by
  induction h with
  | nil => exact .nil
  | cons hab _ ih =>
      refine .cons (hrs _ List.mem_cons_self _ List.mem_cons_self hab) (ih fun a ha b hb => ?_)
      exact hrs a (List.mem_cons_of_mem _ ha) b (List.mem_cons_of_mem _ hb)

/-- Relations that agree on the members agree on the lists. -/
theorem forall₂_congr_of_mem {r s : α → β → Prop} {as : List α} {bs : List β}
    (hrs : ∀ a ∈ as, ∀ b ∈ bs, (r a b ↔ s a b)) : List.Forall₂ r as bs ↔ List.Forall₂ s as bs :=
  ⟨fun h => forall₂_imp h fun a ha b hb => (hrs a ha b hb).mp,
    fun h => forall₂_imp h fun a ha b hb => (hrs a ha b hb).mpr⟩

/-- Lists that are related in two ways are related in both at once. -/
theorem forall₂_and {r s : α → β → Prop} {as : List α} {bs : List β} (hr : List.Forall₂ r as bs)
    (hs : List.Forall₂ s as bs) : List.Forall₂ (fun a b => r a b ∧ s a b) as bs := by
  induction hr with
  | nil => exact .nil
  | cons hab _ ih =>
      cases hs with
      | cons hab' hs => exact .cons ⟨hab, hab'⟩ (ih hs)

/-- Where one of two relations holds of each pair, the first one holds somewhere or the second one
everywhere. -/
theorem forall₂_or {p q : α → β → Prop} {as : List α} {bs : List β}
    (h : List.Forall₂ (fun a b => p a b ∨ q a b) as bs) :
    (∃ (i : Nat) (a : α) (b : β), as[i]? = some a ∧ bs[i]? = some b ∧ p a b) ∨
      List.Forall₂ q as bs := by
  induction h with
  | nil => exact .inr .nil
  | @cons a b as bs hab _ ih =>
      rcases hab with hab | hab
      · exact .inl ⟨0, a, b, rfl, rfl, hab⟩
      · rcases ih with ⟨i, a, b, ha, hb, hab⟩ | ih
        · exact .inl ⟨i + 1, a, b, ha, hb, hab⟩
        · exact .inr (.cons hab ih)

/-- Each element on the left has a partner on the right. -/
theorem forall₂_exists_right {r : α → β → Prop} {as : List α} {bs : List β}
    (h : List.Forall₂ r as bs) : ∀ a ∈ as, ∃ b ∈ bs, r a b := by
  induction h with
  | nil => exact fun a ha => absurd ha List.not_mem_nil
  | cons hab _ ih =>
      intro a ha
      rcases List.mem_cons.mp ha with rfl | ha
      · exact ⟨_, List.mem_cons_self, hab⟩
      · obtain ⟨b, hb, hab⟩ := ih a ha
        exact ⟨b, List.mem_cons_of_mem _ hb, hab⟩

/-- Partners with the same images. -/
theorem map_eq_map_of_forall₂ {r : α → β → Prop} {f : α → γ} {g : β → γ} {as : List α}
    {bs : List β} (h : List.Forall₂ r as bs) (hfg : ∀ a ∈ as, ∀ b ∈ bs, r a b → f a = g b) :
    as.map f = bs.map g := by
  rw [← List.forall₂_eq_eq_eq, List.forall₂_map_left_iff, List.forall₂_map_right_iff]
  exact forall₂_imp h hfg

/-- What holds of all elements of one list holds of all their partners. -/
theorem forall_mem_iff_of_forall₂ {r : α → β → Prop} {P : α → Prop} {Q : β → Prop} {as : List α}
    {bs : List β} (h : List.Forall₂ r as bs) (hPQ : ∀ a b, r a b → (P a ↔ Q b)) :
    (∀ a ∈ as, P a) ↔ ∀ b ∈ bs, Q b := by
  induction h with
  | nil => simp
  | cons hab _ ih => rw [List.forall_mem_cons, List.forall_mem_cons, hPQ _ _ hab, ih]

/-- Properties that agree on related members cut related beginnings off. -/
theorem forall₂_takeWhile {r : α → β → Prop} {p : α → Bool} {q : β → Bool} {as : List α}
    {bs : List β} (h : List.Forall₂ r as bs) (hpq : ∀ a b, r a b → p a = q b) :
    List.Forall₂ r (as.takeWhile p) (bs.takeWhile q) := by
  induction h with
  | nil => exact .nil
  | cons hab _ ih =>
      rw [List.takeWhile_cons, List.takeWhile_cons, hpq _ _ hab]
      split_ifs
      · exact .cons hab ih
      · exact .nil

/-- Properties that agree on related members leave related rests. -/
theorem forall₂_dropWhile {r : α → β → Prop} {p : α → Bool} {q : β → Bool} {as : List α}
    {bs : List β} (h : List.Forall₂ r as bs) (hpq : ∀ a b, r a b → p a = q b) :
    List.Forall₂ r (as.dropWhile p) (bs.dropWhile q) := by
  induction h with
  | nil => exact .nil
  | cons hab htail ih =>
      rw [List.dropWhile_cons, List.dropWhile_cons, hpq _ _ hab]
      split_ifs
      · exact ih
      · exact .cons hab htail

/-- Partners are paired up with the same elements. -/
theorem forall₂_zip_left {r : α → β → Prop} {as : List α} {bs : List β}
    (h : List.Forall₂ r as bs) (cs : List γ) :
    List.Forall₂ (fun x y => r x.1 y.1 ∧ x.2 = y.2) (as.zip cs) (bs.zip cs) := by
  induction h generalizing cs with
  | nil => exact .nil
  | cons hab _ ih =>
      cases cs with
      | nil => exact .nil
      | cons c cs => exact .cons ⟨hab, rfl⟩ (ih cs)

/-- Related lists have related elements at each position. -/
theorem forall₂_getElem? {r : α → β → Prop} {as : List α} {bs : List β} (h : List.Forall₂ r as bs)
    (i : Nat) : Option.Rel r as[i]? bs[i]? := by
  induction h generalizing i with
  | nil => simp
  | cons hab _ ih =>
      cases i with
      | zero => simpa using hab
      | succ i => simpa using ih i

/-- Related lists stay related when related elements are put in one position. -/
theorem forall₂_set {r : α → β → Prop} {as : List α} {bs : List β} (h : List.Forall₂ r as bs)
    (i : Nat) {a : α} {b : β} (hab : r a b) : List.Forall₂ r (as.set i a) (bs.set i b) := by
  induction h generalizing i with
  | nil => exact .nil
  | cons hcd htail ih =>
      cases i with
      | zero => exact .cons hab htail
      | succ i => exact .cons hcd (ih i)

/-- Relations of lists compose if those of their members do. -/
theorem forall₂_trans {r : α → β → Prop} {s : β → γ → Prop} {q : α → γ → Prop} {as : List α}
    {bs : List β} {cs : List γ} (h : List.Forall₂ r as bs) (h' : List.Forall₂ s bs cs)
    (hq : ∀ a ∈ as, ∀ b ∈ bs, ∀ c ∈ cs, r a b → s b c → q a c) : List.Forall₂ q as cs := by
  induction h generalizing cs with
  | nil => cases h'; exact .nil
  | cons hab _ ih =>
      cases h' with
      | cons hbc h' =>
          refine .cons
            (hq _ List.mem_cons_self _ List.mem_cons_self _ List.mem_cons_self hab hbc) ?_
          exact ih h' fun a ha b hb c hc => hq a (List.mem_cons_of_mem _ ha) b
            (List.mem_cons_of_mem _ hb) c (List.mem_cons_of_mem _ hc)

end TaggedTuple
