import TaggedTuple.Proofs.Tuple.Construction
import TaggedTuple.Proofs.Tuple.Equality

/-!
# The tuples that the operations build

`Tuple.Built` collects the tuples that come out of the operations of the library, in any sequence
and on layouts of any valid caches. They are exactly the well-formed ones (`built_iff`), so what is
proved of well-formed tuples holds of every tuple that a program can get hold of, and of no fewer.
-/

namespace TaggedTuple

namespace Tuple

/-- The tuples that the operations build. An action on the members may fail and may keep a state. -/
inductive Built : {α : Type} → Tuple α → Prop
  | construct {α : Type} {shared : SharedLayout} {positional : List α} {named : List (Symbol × α)}
    {t : Tuple α} (h : Tuple.construct shared positional named = .ok t) : Built t
  | finish {α : Type} {b : TupleBuilder α} {c c' : LayoutCache} {t : Tuple α} (hc : c.Valid)
    (h : b.finish c = (.ok t, c')) : Built t
  | withUpdated {α : Type} {t u : Tuple α} {key : TupleKey} {a : α} (ht : Built t)
    (h : t.withUpdated key a = .ok u) : Built u
  | slicePositional {α : Type} {t u : Tuple α} {start stop : Nat} {c c' : LayoutCache}
    (ht : Built t) (hc : c.Valid) (h : t.slicePositional start stop c = (.ok u, c')) : Built u
  | projectNamed {α : Type} {t u : Tuple α} {fields : List Symbol} {c c' : LayoutCache}
    (ht : Built t) (hc : c.Valid) (h : t.projectNamed fields c = (.ok u, c')) : Built u
  | map {α β : Type} {t : Tuple α} (g : α → β) (ht : Built t) : Built (t.map g)
  | mapM {α β ε σ : Type} {t : Tuple α} {u : Tuple β} {g : α → ExceptT ε (StateM σ) β} {s s' : σ}
    (ht : Built t) (h : (t.mapM g).run s = (.ok u, s')) : Built u

variable {α β ε σ : Type}

/-! ### Construction fills every place -/

/-- Filling keeps the number of places. -/
theorem length_fill {l : Layout} {named : List (Symbol × α)}
    {places filled : List (Option α)} (h : fill l places named = .ok filled) :
    filled.length = places.length := by
  induction named generalizing places with
  | nil =>
      obtain rfl : places = filled := by simpa [fill] using h
      rfl
  | cons x named ih =>
      obtain ⟨f, a⟩ := x
      unfold fill at h
      split at h
      · cases h
      · next position _ =>
          split_ifs at h
          rw [ih h, List.length_set]

/-- There is a value collected for every field. -/
theorem length_collect {fields : List Symbol} {places : List (Option α)} {values : List α}
    (h : collect fields places = .ok values) (hlength : places.length = fields.length) :
    values.length = fields.length := by
  induction fields generalizing places values with
  | nil =>
      obtain rfl : [] = values := by simpa [collect] using h
      rfl
  | cons f fields ih =>
      cases places with
      | nil => cases hlength
      | cons place places =>
          unfold collect at h
          cases place with
          | none => cases h
          | some a =>
              obtain ⟨more, hmore, rfl⟩ : ∃ more, collect fields places = .ok more ∧
                  a :: more = values := by
                cases hrest : collect fields places <;> simp_all [Except.map]
              rw [List.length_cons, List.length_cons, ih hmore (Nat.succ.inj hlength)]

/-- A tuple that is constructed is well-formed. -/
theorem wellFormed_of_construct {shared : SharedLayout} {positional : List α}
    {named : List (Symbol × α)} {t : Tuple α}
    (h : Tuple.construct shared positional named = .ok t) : t.WellFormed := by
  obtain ⟨hpositional, places, values, hfill, hcollect, rfl⟩ := exists_of_construct h
  have hplaces := length_fill hfill
  rw [List.length_replicate] at hplaces
  exact ⟨hpositional, length_collect hcollect hplaces⟩

/-- The members of a well-formed tuple construct it again. -/
theorem WellFormed.construct_eq {t : Tuple α} (ht : t.WellFormed) :
    Tuple.construct t.shared t.positional t.named = .ok t := by
  have hnamed : (t.named.map Prod.fst).Perm t.shared.layout.fields := by
    rw [ht.map_fst_named]
    exact .refl _
  obtain ⟨u, hu, hmembers⟩ := exists_construct ht.positional_length hnamed
  have hut : u = t := by
    apply eq_of_field?_eq hmembers.wellFormed ht (shared_of_construct hu) hmembers.positional_eq
    intro f
    rw [hmembers.field?_eq, ← field?_eq_lookup]
  rw [hu, hut]

/-! ### Actions on the members -/

/-- An action that succeeds is followed by the next one in the state that it leaves. -/
theorem bind_run_eq_ok_iff {x : ExceptT ε (StateM σ) α} {k : α → ExceptT ε (StateM σ) β} {b : β}
    {s s' : σ} :
    (x >>= k).run s = (.ok b, s') ↔ ∃ a s₁, x.run s = (.ok a, s₁) ∧ (k a).run s₁ = (.ok b, s') := by
  rw [ExceptT.run_bind]
  rcases hx : x.run s with ⟨r, s₁⟩
  simp only [bind, StateT.bind, hx]
  cases r with
  | error e =>
      constructor
      · intro h
        cases h
      · rintro ⟨a, s₂, h, -⟩
        cases h
  | ok a =>
      constructor
      · intro h
        exact ⟨a, s₁, rfl, h⟩
      · rintro ⟨a', s₂, h, hk⟩
        cases h
        exact hk

/-- A map that may fail keeps the number of elements. -/
theorem length_mapM {g : α → ExceptT ε (StateM σ) β} {as : List α} {bs : List β} {s s' : σ}
    (h : (as.mapM g).run s = (.ok bs, s')) : bs.length = as.length := by
  induction as generalizing bs s with
  | nil =>
      cases h
      rfl
  | cons a as ih =>
      rw [List.mapM_cons, bind_run_eq_ok_iff] at h
      obtain ⟨b, s₁, -, h⟩ := h
      obtain ⟨bs', s₂, hbs, h⟩ := bind_run_eq_ok_iff.mp h
      cases h
      rw [List.length_cons, List.length_cons, ih hbs]

/-- A map that may fail keeps a tuple well-formed. -/
theorem WellFormed.of_mapM {t : Tuple α} (ht : t.WellFormed) {u : Tuple β}
    {g : α → ExceptT ε (StateM σ) β} {s s' : σ} (h : (t.mapM g).run s = (.ok u, s')) :
    u.WellFormed := by
  obtain ⟨positional, s₁, hpositional, h⟩ := bind_run_eq_ok_iff.mp h
  obtain ⟨values, s₂, hvalues, h⟩ := bind_run_eq_ok_iff.mp h
  cases h
  exact ⟨(length_mapM hpositional).trans ht.positional_length,
    (length_mapM hvalues).trans ht.values_length⟩

/-! ### Every operation -/

/-- An update keeps a tuple well-formed. -/
theorem WellFormed.of_withUpdated {t u : Tuple α} (ht : t.WellFormed) {key : TupleKey} {a : α}
    (h : t.withUpdated key a = .ok u) : u.WellFormed := by
  cases key with
  | index i =>
      rcases withUpdated_index_cases ht a i with ⟨-, v, hv, -, hmembers⟩ | ⟨-, herror⟩
      · cases hv.symm.trans h
        exact hmembers.wellFormed
      · cases herror.symm.trans h
  | field f =>
      rcases withUpdated_field_cases ht a f with ⟨-, v, hv, -, hmembers⟩ | ⟨-, herror⟩
      · cases hv.symm.trans h
        exact hmembers.wellFormed
      · cases herror.symm.trans h

/-- The operations build well-formed tuples. -/
theorem Built.wellFormed {t : Tuple α} (h : t.Built) : t.WellFormed := by
  induction h with
  | construct h => exact wellFormed_of_construct h
  | @finish _ b _ _ _ hc h =>
      rcases b.finish_cases hc with ⟨f, -, herror⟩ | ⟨-, t, c', hok, -, hmembers⟩
      · cases herror.symm.trans h
      · cases hok.symm.trans h
        exact hmembers.wellFormed
  | withUpdated _ h ih => exact ih.of_withUpdated h
  | slicePositional _ hc h _ => exact (hasMembers_of_slicePositional hc h).1.wellFormed
  | projectNamed _ hc h _ => exact (hasMembers_of_projectNamed hc h).1.wellFormed
  | map g _ ih => exact ih.map g
  | mapM _ h ih => exact ih.of_mapM h

/-- The operations build exactly the well-formed tuples. -/
theorem built_iff {t : Tuple α} : t.Built ↔ t.WellFormed := by
  constructor
  · intro h
    exact h.wellFormed
  · intro h
    exact .construct h.construct_eq

end Tuple

end TaggedTuple
