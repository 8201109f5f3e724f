import Mathlib.Logic.Embedding.Basic
import TaggedTuple.Proofs.Tuple.Equality

/-!
# Renaming the symbols of a tuple

A renaming is an injective map of symbols. It keeps the order in which a layout declares its fields,
but not their order as numbers, so the index of a layout is built anew and every way through fields
in ascending order changes. What the operations answer is renamed and otherwise the same: each one
commutes with renaming (`getField_rename`, `construct_rename`, `withUpdated_rename`), results being
renamed by `renameResult`, and tuples are related exactly when renamed tuples are
(`rel_rename_iff`).

The members of a tuple may hold symbols of their own. They are renamed by a function `g` that is
left open here.
-/

namespace TaggedTuple

/-! ### Results -/

section result

variable {ε δ α β α' β' : Type}

/-- The result with its error and its value renamed. -/
def renameResult (onError : ε → δ) (onValue : α → β) : Except ε α → Except δ β
  | .ok a => .ok (onValue a)
  | .error e => .error (onError e)

variable {onError : ε → δ} {onValue : α → β}

/-- A value is renamed. -/
@[simp]
theorem renameResult_ok (a : α) :
    renameResult onError onValue (.ok a) = .ok (onValue a) := rfl

/-- An error is renamed. -/
@[simp]
theorem renameResult_error (e : ε) :
    renameResult onError onValue (.error e) = .error (onError e) := rfl

/-- A computation is renamed step by step. -/
theorem renameResult_bind {onValue' : α' → β'} {x : Except ε α} {f : α → Except ε α'}
    {f' : β → Except δ β'} (hf : ∀ a, f' (onValue a) = renameResult onError onValue' (f a)) :
    (renameResult onError onValue x >>= f') = renameResult onError onValue' (x >>= f) := by
  cases x with
  | ok a => exact hf a
  | error e => rfl

/-- An action on each element is renamed element by element. -/
theorem renameResult_mapM {g : α → Except ε α'} {g' : β → Except δ β'} {onValue' : α' → β'}
    {as : List α} (hg : ∀ a ∈ as, g' (onValue a) = renameResult onError onValue' (g a)) :
    (as.map onValue).mapM g' = renameResult onError (List.map onValue') (as.mapM g) := by
  induction as with
  | nil => rfl
  | cons a as ih =>
      rw [List.map_cons, List.mapM_cons, List.mapM_cons, hg a List.mem_cons_self]
      apply renameResult_bind
      intro b
      rw [ih fun a ha => hg a (List.mem_cons_of_mem _ ha)]
      apply renameResult_bind
      intro bs
      rfl

end result

/-! ### Layouts -/

variable {α β γ δ : Type} (r : Symbol ↪ Symbol)

/-- The layout with renamed fields, declared in the same order, and with a renamed tag. -/
def Layout.rename (l : Layout) : Layout :=
  .declare l.positional (l.fields_nodup.map r.injective) (l.tag.map r)

/-- The instance with a renamed layout. -/
def SharedLayout.rename (s : SharedLayout) : SharedLayout := { s with layout := s.layout.rename r }

/-- The address with a renamed field. -/
def TupleKey.rename : TupleKey → TupleKey
  | .index i => .index i
  | .field f => .field (r f)

/-- The error with renamed fields. -/
def TupleError.rename : TupleError → TupleError
  | .duplicateField f => .duplicateField (r f)
  | .arityMismatch expected found => .arityMismatch expected found
  | .unknownField f => .unknownField (r f)
  | .missingField f => .missingField (r f)
  | .indexOutOfRange index length => .indexOutOfRange index length

namespace Layout

/-- Renaming a layout keeps the number of positional members. -/
@[simp]
theorem positional_rename (l : Layout) : (l.rename r).positional = l.positional := rfl

/-- Renaming a layout renames its fields in their order. -/
@[simp]
theorem fields_rename (l : Layout) : (l.rename r).fields = l.fields.map r := rfl

/-- Renaming a layout renames its tag. -/
@[simp]
theorem tag_rename (l : Layout) : (l.rename r).tag = l.tag.map r := rfl

/-- A renamed declaration declares the renamed fields. -/
theorem rename_declare (positional : Nat) {fields : List Symbol} (h : fields.Nodup)
    (tag : Option Symbol) :
    (declare positional h tag).rename r = declare positional (h.map r.injective) (tag.map r) := rfl

/-- A renamed field is found where the field was. -/
theorem positionOf?_rename (l : Layout) (f : Symbol) :
    (l.rename r).positionOf? (r f) = l.positionOf? f := by
  apply Option.ext
  intro position
  simp [positionOf?_eq_some_iff]

/-- No other field is found. -/
theorem positionOf?_rename_of_notMem_range (l : Layout) {f : Symbol} (hf : f ∉ Set.range r) :
    (l.rename r).positionOf? f = none := by
  rw [positionOf?_eq_none_iff, fields_rename, List.mem_map]
  rintro ⟨f', -, rfl⟩
  exact hf ⟨f', rfl⟩

end Layout

/-! ### Tuples -/

namespace Tuple

variable (g : α → β)

/-- The tuple with a renamed layout, its members mapped by a function. -/
def rename (t : Tuple α) : Tuple β :=
  { shared := t.shared.rename r, positional := t.positional.map g, values := t.values.map g }

variable (t : Tuple α)

/-- A renamed tuple lies on the renamed layout. -/
@[simp]
theorem layout_rename : (t.rename r g).layout = t.layout.rename r := rfl

/-- A renamed tuple has the renamed tag. -/
@[simp]
theorem tag_rename : (t.rename r g).tag = t.tag.map r := rfl

/-- Renaming keeps the arity. -/
@[simp]
theorem arity_rename : (t.rename r g).arity = t.arity := rfl

/-- Renaming maps the positional members. -/
@[simp]
theorem positional_rename : (t.rename r g).positional = t.positional.map g := rfl

/-- Renaming maps the values. -/
@[simp]
theorem values_rename : (t.rename r g).values = t.values.map g := rfl

/-- Renaming maps the members. -/
@[simp]
theorem members_rename : (t.rename r g).members = t.members.map g := by
  simp [members]

/-- A renamed tuple is well-formed. -/
theorem WellFormed.rename {t : Tuple α} (h : t.WellFormed) : (t.rename r g).WellFormed where
  positional_length := by simpa using h.positional_length
  values_length := by simpa using h.values_length

/-! ### Access -/

/-- Renaming keeps where positional members are read. -/
theorem at?_rename (i : Nat) : (t.rename r g).at? i = (t.at? i).map g := by
  unfold at?
  rw [arity_rename, positional_rename, List.getElem?_map]
  split_ifs
  · rfl
  · rfl

/-- A renamed tuple has at a renamed field what the tuple has at the field. -/
theorem field?_rename (f : Symbol) : (t.rename r g).field? (r f) = (t.field? f).map g := by
  unfold field?
  rw [layout_rename, Layout.positionOf?_rename]
  cases t.layout.positionOf? f with
  | none => rfl
  | some position => exact List.getElem?_map

/-- A renamed tuple has renamed fields only. -/
theorem field?_rename_of_notMem_range {f : Symbol} (hf : f ∉ Set.range r) :
    (t.rename r g).field? f = none := by
  unfold field?
  rw [layout_rename, Layout.positionOf?_rename_of_notMem_range r _ hf]
  rfl

/-- Reading a renamed field gives the renamed result. -/
theorem getField_rename (f : Symbol) :
    (t.rename r g).getField (r f) = renameResult (.rename r) g (t.getField f) := by
  unfold getField
  rw [field?_rename]
  cases t.field? f with
  | none => rfl
  | some a => rfl

/-! ### Construction -/

/-- Renamed pairs fill the places as the pairs do. -/
theorem fill_rename (l : Layout) (places : List (Option α)) (named : List (Symbol × α)) :
    fill (l.rename r) (places.map (Option.map g)) (named.map (Prod.map r g))
      = renameResult (.rename r) (List.map (Option.map g)) (fill l places named) := by
  -- the places change with each named value that is filled in
  induction named generalizing places with
  | nil => rfl
  | cons x named ih =>
      obtain ⟨f, a⟩ := x
      rw [List.map_cons, Prod.map_apply, fill, fill, Layout.positionOf?_rename]
      cases l.positionOf? f with
      | none => rfl
      | some position =>
          have htaken : (((places.map (Option.map g))[position]?).bind id).isSome
              = (places[position]?.bind id).isSome := by
            rw [List.getElem?_map]
            rcases places[position]? with _ | _ | a <;> rfl
          dsimp only
          rw [htaken]
          split_ifs
          · rfl
          · rw [← ih, List.map_set]
            rfl

/-- The values of renamed fields are collected as those of the fields are. -/
theorem collect_rename (fields : List Symbol) (places : List (Option α)) :
    collect (fields.map r) (places.map (Option.map g))
      = renameResult (.rename r) (List.map g) (collect fields places) := by
  induction fields generalizing places with
  | nil => rfl
  | cons f fields ih =>
      cases places with
      | nil => rfl
      | cons place places =>
          cases place with
          | none => rfl
          | some a =>
              simp only [List.map_cons, Option.map_some, collect, ih]
              cases collect fields places with
              | error e => rfl
              | ok values => rfl

/-- A tuple is constructed from renamed parts with the renamed outcome, value or error. -/
theorem construct_rename (shared : SharedLayout) (positional : List α)
    (named : List (Symbol × α)) :
    construct (shared.rename r) (positional.map g) (named.map (Prod.map r g))
      = renameResult (.rename r) (Tuple.rename r g) (construct shared positional named) := by
  have hempty : List.replicate (shared.layout.rename r).fields.length (none : Option β)
      = (List.replicate shared.layout.fields.length none).map (Option.map g) := by
    simp
  have hfields : (shared.rename r).layout = shared.layout.rename r := rfl
  unfold construct
  rw [hfields]
  dsimp only
  rw [List.length_map, Layout.positional_rename, hempty, Layout.fields_rename,
    fill_rename r g shared.layout]
  split_ifs
  · apply renameResult_bind
    intro places
    rw [collect_rename]
    apply renameResult_bind
    intro values
    rfl
  · rfl

/-! ### Updates -/

/-- A renamed update is the renamed result of the update. -/
theorem withUpdated_rename (key : TupleKey) (a : α) :
    (t.rename r g).withUpdated (key.rename r) (g a)
      = renameResult (.rename r) (Tuple.rename r g) (t.withUpdated key a) := by
  cases key with
  | index i =>
      by_cases hi : i < t.arity
      · have hi' : i < (t.rename r g).arity := hi
        simp only [TupleKey.rename, withUpdated, if_pos hi, if_pos hi', renameResult_ok]
        simp [rename]
      · have hi' : ¬i < (t.rename r g).arity := hi
        simp only [TupleKey.rename, withUpdated, if_neg hi, if_neg hi', renameResult_error]
        simp [TupleError.rename]
  | field f =>
      simp only [TupleKey.rename, withUpdated, layout_rename, Layout.positionOf?_rename]
      cases t.layout.positionOf? f with
      | none => rfl
      | some position => simp [rename]

/-! ### Relations -/

/-- Renamed tuples are related exactly when the tuples are, the members seen through the functions
that rename them. -/
theorem rel_rename_iff {s : β → δ → Prop} {g' : γ → δ} {u : Tuple γ} :
    Rel s (t.rename r g) (u.rename r g') ↔ Rel (fun a b => s (g a) (g' b)) t u := by
  constructor
  · rintro ⟨htag, hpositional, hfield⟩
    refine ⟨Option.map_injective r.injective htag, ?_, fun f => ?_⟩
    · simpa [List.forall₂_map_left_iff, List.forall₂_map_right_iff] using hpositional
    · rw [← optionRel_map_iff, ← field?_rename r, ← field?_rename r]
      exact hfield (r f)
  · rintro ⟨htag, hpositional, hfield⟩
    refine ⟨congrArg (Option.map r) htag, ?_, fun f => ?_⟩
    · simpa [List.forall₂_map_left_iff, List.forall₂_map_right_iff] using hpositional
    · by_cases hf : f ∈ Set.range r
      · obtain ⟨f, rfl⟩ := hf
        rw [field?_rename, field?_rename, optionRel_map_iff]
        exact hfield f
      · -- neither tuple has a field that is no renamed one
        rw [field?_rename_of_notMem_range r g t hf, field?_rename_of_notMem_range r g' u hf]
        exact .none

/-- Renaming neither makes nor breaks equality, if it does so for no two members. -/
theorem beq_rename [BEq α] [BEq β] {t u : Tuple α} (ht : t.WellFormed) (hu : u.WellFormed)
    (hg : ∀ a ∈ t.members, ∀ b ∈ u.members, (g a == g b) = (a == b)) :
    (t.rename r g == u.rename r g) = (t == u) := by
  rw [Bool.eq_iff_iff, beq_iff (ht.rename r g) (hu.rename r g), beq_iff ht hu, rel_rename_iff]
  apply rel_congr
  intro a ha b hb
  rw [hg a ha b hb]

end Tuple

end TaggedTuple
