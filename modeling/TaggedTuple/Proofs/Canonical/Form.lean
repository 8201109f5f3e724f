import Mathlib.Data.String.Basic
import Mathlib.Order.RelClasses
import TaggedTuple.Canonical.Codec
import TaggedTuple.Proofs.SymbolTable.Extension
import TaggedTuple.Proofs.Tuple.Equality

/-!
# The canonical form of a tuple

A canonical form describes a tuple by names (`CanonicalTuple.Describes`): the name of the tag, the
positional members, and the map from field names to values, listed in strictly ascending order. The
conversion gives the form that describes the tuple and no other (`Tuple.toCanonical_eq_ok_iff`); it
fails only if there are too many positional members or a symbol has no name.

Two symbols of a table never have the same name, so nothing is lost: two tuples have the same form
exactly when they are equal (`CanonicalTuple.Describes.eq_iff`, `Tuple.toCanonical_decides_eq`), in
whatever order their layouts declare the fields.
-/

set_option linter.unusedSectionVars false

namespace TaggedTuple

variable {α : Type}

/-! ### Naming the members -/

/-- A named member with the name of its field. -/
def renamed (names : Symbol.Names) (x : Symbol × α) : String × α := ((names x.1).getD "", x.2)

/-- A named member with the name of its field, which must have one. -/
def nameEntry (names : Symbol.Names) (x : Symbol × α) : Except EncodingError (String × α) := do
  return (← requireName names x.1, x.2)

/-- A named member goes into the form under the name of its field, if that has one. -/
theorem nameEntry_eq_ok_iff {names : Symbol.Names} {x : Symbol × α} {y : String × α} :
    nameEntry names x = .ok y ↔ (names x.1).isSome = true ∧ renamed names x = y := by
  unfold nameEntry requireName renamed
  cases names x.1 with
  | none => simp [Bind.bind, Except.bind]
  | some name => simp [Bind.bind, Except.bind, pure, Except.pure]

/-- A field without a name keeps a tuple from having a form. -/
theorem nameEntry_eq_error_iff {names : Symbol.Names} {x : Symbol × α} {e : EncodingError} :
    nameEntry names x = .error e ↔ names x.1 = none ∧ e = .unnamed x.1 := by
  unfold nameEntry requireName
  cases names x.1 with
  | none => simp [Bind.bind, Except.bind, eq_comm]
  | some name => simp [Bind.bind, Except.bind, pure, Except.pure]

/-- Either all fields have names, or one that has none is the error. -/
theorem mapM_nameEntry_cases (names : Symbol.Names) (l : List (Symbol × α)) :
    ((∀ x ∈ l, (names x.1).isSome = true) ∧
      l.mapM (nameEntry names) = .ok (l.map (renamed names))) ∨
    ∃ x ∈ l, names x.1 = none ∧ l.mapM (nameEntry names) = .error (.unnamed x.1) := by
  rcases mapM_except_cases (nameEntry names) l with
    ⟨entries, hentries, hname⟩ | ⟨x, hx, e, he, herror⟩
  · refine .inl ⟨fun x hx => ?_, ?_⟩
    · obtain ⟨y, -, hxy⟩ := forall₂_exists_right hname x hx
      exact (nameEntry_eq_ok_iff.mp hxy).1
    · have heq : List.Forall₂ (· = ·) (l.map (renamed names)) entries :=
        List.forall₂_map_left_iff.mpr (hname.imp fun _ _ hxy => (nameEntry_eq_ok_iff.mp hxy).2)
      rw [List.forall₂_eq_eq_eq] at heq
      rw [hentries, heq]
  · obtain ⟨hnone, rfl⟩ := nameEntry_eq_error_iff.mp he
    exact .inr ⟨x, hx, hnone, herror⟩

/-- The tag is named like a field. -/
theorem mapM_requireName_cases (names : Symbol.Names) (tag : Option Symbol) :
    ((∀ s, tag = some s → (names s).isSome = true) ∧
      tag.mapM (requireName names) = .ok (tag.bind names)) ∨
    ∃ s, tag = some s ∧ names s = none ∧ tag.mapM (requireName names) = .error (.unnamed s) := by
  cases tag with
  | none => exact .inl ⟨fun s hs => (Option.some_ne_none s hs.symm).elim, rfl⟩
  | some s =>
      cases hname : names s with
      | none =>
          refine .inr ⟨s, rfl, hname, ?_⟩
          simp [requireName, hname]
      | some name =>
          refine .inl ⟨fun s' hs' => ?_, ?_⟩
          · obtain rfl := Option.some.inj hs'
            rw [hname]
            rfl
          · simp [requireName, hname]

namespace Tuple

/-- All symbols of the tuple, its tag and its fields, have names. -/
structure Known (t : Tuple α) (names : Symbol.Names) : Prop where
  tag : ∀ s, t.tag = some s → (names s).isSome = true
  fields : ∀ f ∈ t.layout.fields, (names f).isSome = true

/-- The member whose field has the given name in the table. -/
def fieldNamed? (t : Tuple α) (table : SymbolTable) (name : String) : Option α :=
  (table.find? name).bind t.field?

variable {t u : Tuple α} {table : SymbolTable}

/-- A field with a member has a name. -/
theorem Known.field_of_mem {names : Symbol.Names} (h : t.Known names) {f : Symbol} {a : α}
    (hf : t.field? f = some a) : (names f).isSome = true := by
  obtain ⟨i, hget, -⟩ := field?_eq_some_iff.mp hf
  exact h.fields f (List.mem_of_getElem? hget)

/-- A field is found by its name. -/
theorem fieldNamed?_of_name? (htable : table.Valid) {f : Symbol} {name : String}
    (hname : table.name? f = some name) : t.fieldNamed? table name = t.field? f := by
  rw [fieldNamed?, (htable name f).mpr hname, Option.bind_some]

/-- A member that is found by a name is a named member under that name. -/
theorem fieldNamed?_eq_some_iff (htable : table.Valid) {name : String} {a : α} :
    t.fieldNamed? table name = some a ↔
      ∃ f, table.name? f = some name ∧ t.field? f = some a := by
  simp only [fieldNamed?, Option.bind_eq_some_iff, fun f => htable name f]

/-- Tuples with the same members under each name have the same members under each symbol. -/
theorem fieldNamed?_ext_iff (htable : table.Valid) (ht : t.Known table.name?)
    (hu : u.Known table.name?) :
    (∀ name, t.fieldNamed? table name = u.fieldNamed? table name) ↔
      ∀ f, t.field? f = u.field? f := by
  constructor
  · intro h f
    cases hf : table.name? f with
    | some name => rw [← fieldNamed?_of_name? htable hf, h, fieldNamed?_of_name? htable hf]
    | none =>
        -- neither tuple has a field without a name
        have hnone : ∀ {v : Tuple α}, v.Known table.name? → v.field? f = none := by
          intro v hv
          rw [Option.eq_none_iff_forall_ne_some]
          intro a ha
          have hsome := hv.field_of_mem ha
          rw [hf] at hsome
          cases hsome
        rw [hnone ht, hnone hu]
  · intro h name
    have hfield : t.field? = u.field? := funext h
    rw [fieldNamed?, fieldNamed?, hfield]

/-- Tuples whose tags have the same name have the same tag. -/
theorem bind_name?_tag_eq_iff (htable : table.Valid) (ht : t.Known table.name?)
    (hu : u.Known table.name?) :
    t.tag.bind table.name? = u.tag.bind table.name? ↔ t.tag = u.tag := by
  refine ⟨fun h => ?_, fun h => congrArg (Option.bind · table.name?) h⟩
  cases htag : t.tag with
  | none =>
      cases hutag : u.tag with
      | none => rfl
      | some s =>
          have hsome := hu.tag s hutag
          rw [htag, hutag, Option.bind_none, Option.bind_some] at h
          rw [← h] at hsome
          cases hsome
  | some s =>
      obtain ⟨name, hname⟩ := Option.isSome_iff_exists.mp (ht.tag s htag)
      rw [htag, Option.bind_some, hname] at h
      obtain ⟨s', hs', hname'⟩ := Option.bind_eq_some_iff.mp h.symm
      rw [hs', htable.name?_injective hname hname']

/-- When equal members are the same, tuples are equal exactly when they hold the same members. -/
theorem beq_iff_members [BEq α] [LawfulBEq α] (ht : t.WellFormed) (hu : u.WellFormed) :
    (t == u) = true ↔
      t.tag = u.tag ∧ t.positional = u.positional ∧ ∀ f, t.field? f = u.field? f := by
  have hrel : ∀ o o' : Option α, Option.Rel (fun a b => a = b) o o' ↔ o = o' := by
    intro o o'
    cases o <;> cases o' <;> simp
  rw [beq_iff ht hu]
  simp only [beq_iff_eq]
  constructor
  · intro h
    refine ⟨h.tag_eq, ?_, fun f => (hrel _ _).mp (h.field f)⟩
    exact List.forall₂_eq_eq_eq ▸ h.positional
  · rintro ⟨htag, hpositional, hfield⟩
    refine ⟨htag, ?_, fun f => (hrel _ _).mpr (hfield f)⟩
    rw [hpositional]
    exact List.forall₂_same.mpr fun _ _ => rfl

/-! ### The conversion -/

/-- The canonical form, with the naming of a member as a step of its own. -/
theorem toCanonical_eq (t : Tuple α) (names : Symbol.Names) :
    t.toCanonical names = (do
      if t.arity < UInt32.size then .ok () else .error (.tooManyPositional t.arity)
      let named ← t.named.mapM (nameEntry names)
      let tag ← t.tag.mapM (requireName names)
      return { tag, positionalCount := UInt32.ofNat t.arity, positional := t.positional,
               named := sortByKey Prod.fst named }) := rfl

/-- A tuple has a canonical form exactly when its positional members can be counted and its symbols
have names. -/
theorem toCanonical_eq_ok (ht : t.WellFormed) {names : Symbol.Names} {x : CanonicalTuple α} :
    t.toCanonical names = .ok x ↔ t.arity < UInt32.size ∧ t.Known names ∧
      x = { tag := t.tag.bind names, positionalCount := UInt32.ofNat t.arity,
            positional := t.positional,
            named := sortByKey Prod.fst (t.named.map (renamed names)) } := by
  rw [toCanonical_eq]
  by_cases harity : t.arity < UInt32.size
  · rcases mapM_nameEntry_cases names t.named with ⟨hall, hnamed⟩ | ⟨y, hy, hnone, hnamed⟩
    · rcases mapM_requireName_cases names t.tag with ⟨htag, hname⟩ | ⟨s, hs, hnone, hname⟩
      · have hknown : t.Known names := ⟨htag, ht.forall_named_iff.mp hall⟩
        simp [harity, hnamed, hname, hknown, bind, Except.bind, pure, Except.pure, eq_comm]
      · have hunknown : ¬t.Known names := fun hknown => by
          have hsome := hknown.tag s hs
          rw [hnone] at hsome
          cases hsome
        simp [harity, hnamed, hname, hunknown, bind, Except.bind]
    · have hunknown : ¬t.Known names := fun hknown => by
        have hsome := ht.forall_named_iff.mpr hknown.fields y hy
        rw [hnone] at hsome
        cases hsome
      simp [harity, hnamed, hunknown, bind, Except.bind]
  · simp [harity, bind, Except.bind]

/-- The only other reason to fail, when all symbols have names. -/
theorem toCanonical_eq_error {names : Symbol.Names} (h : UInt32.size ≤ t.arity) :
    t.toCanonical names = .error (.tooManyPositional t.arity) := by
  rw [toCanonical_eq, if_neg (Nat.not_lt.mpr h)]
  rfl

/-- Fields with distinct symbols have distinct names. -/
theorem WellFormed.nodup_keys_renamed (ht : t.WellFormed) {names : Symbol.Names}
    (hinjective : ∀ s s' name, names s = some name → names s' = some name → s = s')
    (hnamed : ∀ x ∈ t.named, (names x.1).isSome = true) :
    ((t.named.map (renamed names)).map Prod.fst).Nodup := by
  have hfst : (t.named.map (renamed names)).map Prod.fst
      = (t.named.map Prod.fst).map fun f => (names f).getD "" := by
    rw [List.map_map, List.map_map]
    rfl
  rw [hfst]
  refine List.Nodup.map_on ?_ ht.nodup_keys_named
  intro f hf g hg heq
  obtain ⟨x, hx, rfl⟩ := List.mem_map.mp hf
  obtain ⟨y, hy, rfl⟩ := List.mem_map.mp hg
  obtain ⟨name, hname⟩ := Option.isSome_iff_exists.mp (hnamed x hx)
  obtain ⟨name', hname'⟩ := Option.isSome_iff_exists.mp (hnamed y hy)
  rw [hname, hname', Option.getD_some, Option.getD_some] at heq
  exact hinjective _ _ name hname (heq ▸ hname')

end Tuple

namespace CanonicalTuple

/-- The form describes the tuple by the names of its symbols. -/
structure Describes (x : CanonicalTuple α) (t : Tuple α) (table : SymbolTable) : Prop where
  arity_lt : t.arity < UInt32.size
  known : t.Known table.name?
  tag_eq : x.tag = t.tag.bind table.name?
  count_eq : x.positionalCount = UInt32.ofNat t.arity
  positional_eq : x.positional = t.positional
  ascending : x.named.Pairwise fun m n => m.1 < n.1
  named_eq : ∀ name, x.named.lookup name = t.fieldNamed? table name

variable {x y : CanonicalTuple α} {t u : Tuple α} {table : SymbolTable}

/-- Names in strictly ascending order differ. -/
theorem nodup_keys_of_ascending {l : List (String × α)} (h : l.Pairwise fun m n => m.1 < n.1) :
    (l.map Prod.fst).Nodup := by
  apply List.pairwise_map.mpr
  exact h.imp fun hlt => ne_of_lt hlt

/-- Forms that describe tuples of one table are equal exactly when the tuples hold the same
members. -/
theorem Describes.eq_iff (htable : table.Valid) (ht : t.WellFormed) (hu : u.WellFormed)
    (hx : x.Describes t table) (hy : y.Describes u table) :
    x = y ↔ t.tag = u.tag ∧ t.positional = u.positional ∧ ∀ f, t.field? f = u.field? f := by
  rw [← Tuple.bind_name?_tag_eq_iff htable hx.known hy.known,
    ← Tuple.fieldNamed?_ext_iff htable hx.known hy.known]
  constructor
  · rintro rfl
    refine ⟨hx.tag_eq.symm.trans hy.tag_eq, hx.positional_eq.symm.trans hy.positional_eq, ?_⟩
    intro name
    rw [← hx.named_eq, ← hy.named_eq]
  · rintro ⟨htag, hpositional, hfields⟩
    have harity : t.arity = u.arity := by
      rw [Tuple.arity, Tuple.arity, ← ht.positional_length, ← hu.positional_length, hpositional]
    have hperm : x.named.Perm y.named := by
      apply perm_of_lookup_eq (nodup_keys_of_ascending hx.ascending)
        (nodup_keys_of_ascending hy.ascending)
      intro name
      rw [hx.named_eq, hy.named_eq, hfields]
    have hnamed : x.named = y.named := eq_of_perm_of_ascending hx.ascending hy.ascending hperm
    have htag' : x.tag = y.tag := by rw [hx.tag_eq, hy.tag_eq, htag]
    have hcount : x.positionalCount = y.positionalCount := by
      rw [hx.count_eq, hy.count_eq, harity]
    have hpositional' : x.positional = y.positional := by
      rw [hx.positional_eq, hy.positional_eq, hpositional]
    obtain ⟨xtag, xcount, xpositional, xnamed⟩ := x
    obtain ⟨ytag, ycount, ypositional, ynamed⟩ := y
    rw [CanonicalTuple.mk.injEq]
    exact ⟨htag', hcount, hpositional', hnamed⟩

end CanonicalTuple

namespace Tuple

variable {t u : Tuple α} {table : SymbolTable} (htable : table.Valid)
include htable

/-- Fields with distinct symbols have distinct names. -/
theorem WellFormed.nodup_keys_renamed_of_known (ht : t.WellFormed) (hknown : t.Known table.name?) :
    ((t.named.map (renamed table.name?)).map Prod.fst).Nodup :=
  ht.nodup_keys_renamed (fun _ _ _ => htable.name?_injective)
    (ht.forall_named_iff.mpr hknown.fields)

/-- Looking a name up among the renamed members is looking its symbol up among the fields. -/
theorem WellFormed.lookup_renamed (ht : t.WellFormed) (hknown : t.Known table.name?)
    (name : String) :
    (t.named.map (renamed table.name?)).lookup name = t.fieldNamed? table name := by
  apply Option.ext
  intro a
  rw [lookup_eq_some_iff_mem (ht.nodup_keys_renamed_of_known htable hknown),
    fieldNamed?_eq_some_iff htable, List.mem_map]
  constructor
  · rintro ⟨⟨f, b⟩, hmem, heq⟩
    have hsome : (table.name? f).isSome = true := ht.forall_named_iff.mpr hknown.fields _ hmem
    obtain ⟨name', hname'⟩ := Option.isSome_iff_exists.mp hsome
    rw [renamed, hname', Option.getD_some, Prod.mk.injEq] at heq
    obtain ⟨rfl, rfl⟩ := heq
    refine ⟨f, hname', ?_⟩
    rwa [field?_eq_lookup, lookup_eq_some_iff_mem ht.nodup_keys_named]
  · rintro ⟨f, hname, hf⟩
    rw [field?_eq_lookup, lookup_eq_some_iff_mem ht.nodup_keys_named] at hf
    refine ⟨(f, a), hf, ?_⟩
    rw [renamed, hname, Option.getD_some]

/-- The conversion gives the form that describes the tuple. -/
theorem describes_of_toCanonical (ht : t.WellFormed) {x : CanonicalTuple α}
    (h : t.toCanonical table.name? = .ok x) : x.Describes t table := by
  obtain ⟨harity, hknown, rfl⟩ := (toCanonical_eq_ok ht).mp h
  have hnodup := ht.nodup_keys_renamed_of_known htable hknown
  have hsorted : (sortByKey Prod.fst (t.named.map (renamed table.name?))).Perm
      (t.named.map (renamed table.name?)) := sortByKey_perm _
  refine ⟨harity, hknown, rfl, rfl, rfl, sortByKey_ascending hnodup, fun name => ?_⟩
  rw [← ht.lookup_renamed htable hknown]
  exact lookup_eq_of_perm ((hsorted.map Prod.fst).nodup_iff.mpr hnodup) hsorted name

/-- The conversion gives the form that describes the tuple, if there is one. -/
theorem toCanonical_eq_ok_iff (ht : t.WellFormed) {x : CanonicalTuple α} :
    t.toCanonical table.name? = .ok x ↔ x.Describes t table := by
  refine ⟨describes_of_toCanonical htable ht, fun hx => ?_⟩
  have hy := (toCanonical_eq_ok ht).mpr ⟨hx.arity_lt, hx.known, rfl⟩
  have hsame := (describes_of_toCanonical htable ht hy).eq_iff htable ht ht hx
  rw [hy, hsame.mpr ⟨rfl, rfl, fun _ => rfl⟩]

/-- A tuple whose symbols have names has a canonical form exactly when its positional members can be
counted. -/
theorem exists_toCanonical_iff (ht : t.WellFormed) (hknown : t.Known table.name?) :
    (∃ x, t.toCanonical table.name? = .ok x) ↔ t.arity < UInt32.size := by
  constructor
  · rintro ⟨x, hx⟩
    exact ((toCanonical_eq_ok ht).mp hx).1
  · intro harity
    exact ⟨_, (toCanonical_eq_ok ht).mpr ⟨harity, hknown, rfl⟩⟩

/-! ### The form decides equality -/

/-- Equality of canonical forms is equality of tuples, when equal members are the same. The named
members of a form are in strictly ascending order of their names. Tuples that are equal give the
same bytes, or the same error. -/
theorem toCanonical_decides_eq [BEq α] [LawfulBEq α] (ht : t.WellFormed) (hu : u.WellFormed)
    (htKnown : t.Known table.name?) (huKnown : u.Known table.name?) :
    (∀ x y, t.toCanonical table.name? = .ok x → u.toCanonical table.name? = .ok y →
      (x = y ↔ (t == u) = true)) ∧
    (∀ x, t.toCanonical table.name? = .ok x → x.named.Pairwise fun m n => m.1 < n.1) ∧
    ((∃ x, t.toCanonical table.name? = .ok x) ↔ t.arity < UInt32.size) ∧
    ((t == u) = true → ∀ c : Codec α,
      (t.toCanonical table.name?).map c.encode = (u.toCanonical table.name?).map c.encode) := by
  have hdecides : ∀ x y, t.toCanonical table.name? = .ok x → u.toCanonical table.name? = .ok y →
      (x = y ↔ (t == u) = true) := by
    intro x y hx hy
    rw [beq_iff_members ht hu]
    exact (describes_of_toCanonical htable ht hx).eq_iff htable ht hu
      (describes_of_toCanonical htable hu hy)
  refine ⟨hdecides, fun x hx => (describes_of_toCanonical htable ht hx).ascending,
    exists_toCanonical_iff htable ht htKnown, fun heq c => ?_⟩
  have harity : t.arity = u.arity :=
    arity_eq_of_positional ((beq_iff ht hu).mp heq).positional ht hu
  by_cases hlt : t.arity < UInt32.size
  · obtain ⟨x, hx⟩ := (exists_toCanonical_iff htable ht htKnown).mpr hlt
    obtain ⟨y, hy⟩ := (exists_toCanonical_iff htable hu huKnown).mpr (harity ▸ hlt)
    rw [hx, hy, (hdecides x y hx hy).mpr heq]
  · have hle := Nat.le_of_not_lt hlt
    rw [toCanonical_eq_error hle, toCanonical_eq_error (harity ▸ hle), harity]

omit htable

/-- A table in which the symbols 1 and 2 have names. -/
def pairNames : SymbolTable := ((SymbolTable.empty.intern "y").2.intern "x").2

/-- A tuple of two named members. -/
def ascendingPair : Tuple Nat := ⟨⟨0, 0, Layout.ascendingPair 0⟩, [], [10, 20]⟩

/-- The same members, declared the other way around. -/
def descendingPair : Tuple Nat := ⟨⟨1, 0, Layout.descendingPair 0⟩, [], [20, 10]⟩

/-- The two orders of declaration give one form. -/
theorem toCanonical_decides_eq_of_reordered_fields :
    (ascendingPair == descendingPair) = true ∧
      ∃ x, ascendingPair.toCanonical pairNames.name? = .ok x ∧
        descendingPair.toCanonical pairNames.name? = .ok x := by
  have htable : pairNames.Valid := (SymbolTable.valid_empty.intern "y").intern "x"
  have heq : (ascendingPair == descendingPair) = true := by decide
  have ht : ascendingPair.WellFormed := ⟨rfl, rfl⟩
  have hu : descendingPair.WellFormed := ⟨rfl, rfl⟩
  have htKnown : ascendingPair.Known pairNames.name? := ⟨nofun, by decide⟩
  have huKnown : descendingPair.Known pairNames.name? := ⟨nofun, by decide⟩
  obtain ⟨hdecides, -, hform, -⟩ := toCanonical_decides_eq htable ht hu htKnown huKnown
  obtain ⟨-, -, hform', -⟩ := toCanonical_decides_eq htable hu ht huKnown htKnown
  obtain ⟨x, hx⟩ := hform.mpr (by decide)
  obtain ⟨y, hy⟩ := hform'.mpr (by decide)
  obtain rfl := (hdecides x y hx hy).mpr heq
  exact ⟨heq, x, hx, hy⟩

end Tuple

end TaggedTuple
