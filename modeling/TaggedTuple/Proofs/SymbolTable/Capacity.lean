import TaggedTuple.Proofs.SymbolTable.Extension
import TaggedTuple.SymbolTable.Call

/-!
# Interning up to the capacity

A table has room for `capacity` names. An attempt to intern a name does what interning does without
a bound as long as the name is known or there is a number left, and otherwise leaves the table as it
is. The entry points agree on that (`SymbolTable.attempt_eq_tryIntern`).

`SymbolTable.Attempted` carries this over to several names: either all the new ones have room, and
the attempt gives what interning them gives, or the table ends up full, with names of the attempt
only behind those that it had. Attempts one after the other are an attempt
(`SymbolTable.Attempted.andThen`).
-/

namespace TaggedTuple

namespace SymbolTable

variable {t t' t'' : SymbolTable} {name : String} {P Q : String → Prop}

/-! ### One name -/

/-- The number of names grows by one exactly when the name has no symbol. -/
theorem size_intern (t : SymbolTable) (name : String) :
    (t.intern name).2.size = t.size + if t.find? name = none then 1 else 0 := by
  cases hfind : t.find? name with
  | some s => rw [intern_of_find? hfind, if_neg (Option.some_ne_none s), Nat.add_zero]
  | none =>
      rw [intern_of_find?_eq_none hfind, if_pos rfl]
      exact Array.size_push name

/-- A name that is known or for which there is room gets its symbol. -/
theorem tryIntern_eq_intern (h : t.find? name = none → t.size < capacity) :
    t.tryIntern name = (.ok (t.intern name).1, (t.intern name).2) := by
  unfold tryIntern
  cases hfind : t.find? name with
  | some s => simp only [intern_of_find? hfind]
  | none => simp only [insert, if_pos (h hfind), intern_of_find?_eq_none hfind]

/-- A full table refuses a new name and stays as it is. -/
theorem tryIntern_eq_error (hfind : t.find? name = none) (hfull : capacity ≤ t.size) :
    t.tryIntern name = (.error (.overflow t.size), t) := by
  unfold tryIntern
  simp only [hfind, insert, if_neg (Nat.not_lt.mpr hfull)]

/-- Whether the table takes the name over does not show in what it does. -/
theorem tryInternOwned_eq_tryIntern : tryInternOwned = tryIntern := rfl

/-- The three ways to ask for a symbol make the same attempt. -/
theorem attempt_eq_tryIntern (entry : Entry) : entry.attempt = tryIntern := by
  cases entry with
  | borrowed => rfl
  | owned => exact tryInternOwned_eq_tryIntern
  | infallible => rfl

/-! ### What a table may become -/

/-- The second table is what the first one may become by interning names with the property: no
symbol loses its name, and the names that are added have the property. -/
structure Grows (t : SymbolTable) (P : String → Prop) (t' : SymbolTable) : Prop where
  extends_names : t.Extends t'
  valid : t.Valid → t'.Valid
  new : ∀ n ∈ t'.names.toList, n ∈ t.names.toList ∨ P n

/-- Interning nothing changes nothing. -/
theorem Grows.refl (t : SymbolTable) (P : String → Prop) : t.Grows P t :=
  ⟨.refl t, id, fun _ => .inl⟩

/-- A table may grow twice. -/
theorem Grows.trans (h : t.Grows P t') (h' : t'.Grows P t'') : t.Grows P t'' where
  extends_names := h.extends_names.trans h'.extends_names
  valid := h'.valid ∘ h.valid
  new n hn := (h'.new n hn).elim (h.new n) .inr

/-- A table that grows by names with a property grows by names with any wider one. -/
theorem Grows.imp (h : t.Grows P t') (hPQ : ∀ n, P n → Q n) : t.Grows Q t' where
  extends_names := h.extends_names
  valid := h.valid
  new n hn := (h.new n hn).imp id (hPQ n)

/-- Interning a name adds no other one. -/
theorem grows_intern (t : SymbolTable) (name : String) : t.Grows (· = name) (t.intern name).2 where
  extends_names := t.extends_intern name
  valid h := h.intern name
  new n hn := by
    cases hfind : t.find? name with
    | some s =>
        rw [intern_of_find? hfind] at hn
        exact .inl hn
    | none => simpa [intern_of_find?_eq_none hfind] using hn

/-! ### Room for several names -/

/-- The first table may become the second one by interning: nothing is new, or all that is new has a
number. -/
def HasRoom (t t' : SymbolTable) : Prop := t'.size = t.size ∨ t'.size ≤ capacity

instance (t t' : SymbolTable) : Decidable (t.HasRoom t') :=
  inferInstanceAs (Decidable (_ ∨ _))

variable {α β : Type} {plain : α × SymbolTable} {result : Except InternError α × SymbolTable}

/-- What becomes of an attempt to intern names with the property that would end in `plain` if tables
had no bound. Without room for all names it stops at a table that is full. -/
structure Attempted (t : SymbolTable) (P : String → Prop) (plain : α × SymbolTable)
    (result : Except InternError α × SymbolTable) : Prop where
  plain_grows : t.Grows P plain.2
  grows : t.Grows P result.2
  eq_ok : t.HasRoom plain.2 → result = (.ok plain.1, plain.2)
  eq_error : ¬t.HasRoom plain.2 →
    result = (.error (.overflow result.2.size), result.2) ∧ capacity ≤ result.2.size

/-- An attempt at names with a property is one at names with any wider one. -/
theorem Attempted.imp (h : t.Attempted P plain result) (hPQ : ∀ n, P n → Q n) :
    t.Attempted Q plain result :=
  ⟨h.plain_grows.imp hPQ, h.grows.imp hPQ, h.eq_ok, h.eq_error⟩

/-- An attempt at nothing. -/
theorem attempted_pure (t : SymbolTable) (P : String → Prop) (a : α) :
    t.Attempted P (a, t) (.ok a, t) :=
  ⟨.refl t P, .refl t P, fun _ => rfl, fun noRoom => absurd (.inl rfl) noRoom⟩

/-- One attempt after the other, the second one from where the first one would end. -/
theorem Attempted.andThen (h : t.Attempted P plain result) {plain' : β × SymbolTable}
    {next : α → SymbolTable → Except InternError β × SymbolTable}
    (hnext : plain.2.Attempted P plain' (next plain.1 plain.2)) :
    t.Attempted P plain' (andThen result next) := by
  have hfirst := h.plain_grows.extends_names.size_le
  have hsecond := hnext.plain_grows.extends_names.size_le
  by_cases room : t.HasRoom plain.2
  · rw [h.eq_ok room]
    have hiff : t.HasRoom plain'.2 ↔ plain.2.HasRoom plain'.2 := by
      unfold HasRoom at room ⊢
      omega
    exact ⟨h.plain_grows.trans hnext.plain_grows, h.plain_grows.trans hnext.grows,
      fun room => hnext.eq_ok (hiff.mp room), fun noRoom => hnext.eq_error (mt hiff.mpr noRoom)⟩
  · obtain ⟨herror, hfull⟩ := h.eq_error room
    -- what was refused is still missing in the end
    have noRoom : ¬t.HasRoom plain'.2 := by
      unfold HasRoom at room ⊢
      omega
    have hends : SymbolTable.andThen result next
        = (.error (.overflow result.2.size), result.2) := by
      rw [herror]
      rfl
    rw [hends]
    exact ⟨h.plain_grows.trans hnext.plain_grows, h.grows, fun room => absurd room noRoom,
      fun _ => ⟨rfl, hfull⟩⟩

/-- An attempt to intern one name. -/
theorem attempted_tryIntern (t : SymbolTable) (name : String) :
    t.Attempted (· = name) (t.intern name) (t.tryIntern name) := by
  have hsize := t.size_intern name
  by_cases hknown : t.find? name = none → t.size < capacity
  · have room : t.HasRoom (t.intern name).2 := by
      unfold HasRoom
      split_ifs at hsize with hfind
      · exact .inr (Nat.le_trans (Nat.le_of_eq hsize) (hknown hfind))
      · exact .inl hsize
    rw [tryIntern_eq_intern hknown]
    exact ⟨t.grows_intern name, t.grows_intern name, fun _ => rfl, fun noRoom => absurd room noRoom⟩
  · obtain ⟨hfind, hfull⟩ := Classical.not_imp.mp hknown
    have hfull := Nat.le_of_not_lt hfull
    rw [if_pos hfind] at hsize
    have noRoom : ¬t.HasRoom (t.intern name).2 := by
      unfold HasRoom
      omega
    rw [tryIntern_eq_error hfind hfull]
    exact ⟨t.grows_intern name, .refl t _, fun room => absurd room noRoom, fun _ => ⟨rfl, hfull⟩⟩

/-- An attempt to intern several names. -/
theorem attempted_tryInternAll (t : SymbolTable) (names : List String) :
    t.Attempted (· ∈ names) (t.internAll names) (t.tryInternAll names) := by
  induction names generalizing t with
  | nil => exact attempted_pure t _ []
  | cons name names ih =>
      have hfirst : t.Attempted (· ∈ name :: names) (t.intern name) (t.tryInternOwned name) :=
        (t.attempted_tryIntern name).imp fun n hn => by
          rw [hn]
          exact List.mem_cons_self
      have hrest := (ih (t.intern name).2).imp fun n => List.mem_cons_of_mem name
      exact hfirst.andThen (hrest.andThen (attempted_pure _ _ _))

/-- Names that are known need no room. -/
theorem internAll_of_known {names : List String} (h : ∀ n ∈ names, t.find? n ≠ none) :
    (t.internAll names).2 = t := by
  induction names with
  | nil => rfl
  | cons name names ih =>
      obtain ⟨s, hs⟩ := Option.ne_none_iff_exists'.mp (h name List.mem_cons_self)
      rw [internAll, intern_of_find? hs]
      exact ih fun n hn => h n (List.mem_cons_of_mem name hn)

/-- Interning adds at most as many names as there are. -/
theorem size_internAll_le (t : SymbolTable) (names : List String) :
    (t.internAll names).2.size ≤ t.size + names.length := by
  induction names generalizing t with
  | nil => exact Nat.le_refl _
  | cons name names ih =>
      have hrest := ih (t.intern name).2
      have hfirst := t.size_intern name
      rw [List.length_cons]
      show (internAll (t.intern name).2 names).2.size ≤ _
      split_ifs at hfirst <;> omega

end SymbolTable

end TaggedTuple
