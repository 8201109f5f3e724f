import TaggedTuple.Proofs.Canonical.Form
import TaggedTuple.Proofs.Renaming.Value

/-!
# Renaming the symbols of a tuple with a canonical form

When renamed symbols have the names of the old ones, the canonical form stays what it was: it holds
names, and sorts the named members by them (`Tuple.toCanonical_rename`). The members are copied as
they are. `Value.canonical` takes the canonical form of tuples at every depth, and is the same for
renamed values (`Value.canonical_rename`).
-/

namespace TaggedTuple

variable {α β ε δ : Type}

/-! ### Values without symbols -/

/-- A value with names in the place of symbols, at every depth. -/
inductive CanonicalValue where
  | int (n : Int64)
  | str (s : String)
  | tuple (c : CanonicalTuple CanonicalValue)

namespace Value

mutual

/-- The canonical form of a value: inner tuples are converted before outer ones. -/
def canonical (names : Symbol.Names) : Value → Except EncodingError CanonicalValue
  | .int n => .ok (.int n)
  | .str s => .ok (.str s)
  | .tuple t => do
    let members ← canonicalMembers names t
    let form ← members.toCanonical names
    return .tuple form

/-- The tuple whose members have their canonical forms. -/
def canonicalMembers (names : Symbol.Names) :
    Tuple Value → Except EncodingError (Tuple CanonicalValue)
  | ⟨shared, positional, values⟩ => do
    let positional ← canonicalEach names positional
    let values ← canonicalEach names values
    return ⟨shared, positional, values⟩

/-- The canonical forms of the values of a list. -/
def canonicalEach (names : Symbol.Names) : List Value → Except EncodingError (List CanonicalValue)
  | [] => .ok []
  | v :: vs => do
    let form ← v.canonical names
    let forms ← canonicalEach names vs
    return form :: forms

end

variable (names : Symbol.Names)

/-- The canonical forms of a list of values, as a map. -/
theorem canonicalEach_eq_mapM (vs : List Value) :
    canonicalEach names vs = vs.mapM (canonical names) := by
  induction vs with
  | nil => rfl
  | cons v vs ih => rw [canonicalEach, ih, List.mapM_cons]

/-- A tuple value is put into canonical form member by member. -/
theorem canonical_tuple (t : Tuple Value) :
    canonical names (.tuple t) = (do
      let members ← t.mapM (canonical names)
      let form ← members.toCanonical names
      return .tuple form) := by
  obtain ⟨shared, positional, values⟩ := t
  rw [canonical, canonicalMembers, canonicalEach_eq_mapM, canonicalEach_eq_mapM]
  rfl

end Value

/-! ### Renamed symbols with the same names -/

variable (r : Symbol ↪ Symbol)

/-- The error with renamed symbols. -/
def EncodingError.rename : EncodingError → EncodingError
  | .codec e => .codec e
  | .positionalCount declared found => .positionalCount declared found
  | .tooManyPositional count => .tooManyPositional count
  | .tuple e => .tuple (e.rename r)
  | .intern e => .intern e
  | .unnamed s => .unnamed (r s)

/-- Mapping nothing changes nothing. -/
theorem CanonicalTuple.map_id (c : CanonicalTuple α) : c.map id = c := by
  simp [map]

namespace Tuple

/-- An action on each member is renamed member by member. -/
theorem mapM_rename {α' β' : Type} {g : α → β} {g' : α' → β'} {f : α → Except ε α'}
    {f' : β → Except δ β'} {onError : ε → δ} {t : Tuple α}
    (hf : ∀ a ∈ t.members, f' (g a) = renameResult onError g' (f a)) :
    (t.rename r g).mapM f' = renameResult onError (Tuple.rename r g') (t.mapM f) := by
  unfold mapM
  rw [positional_rename, values_rename,
    renameResult_mapM fun a ha => hf a (mem_members_of_positional ha),
    renameResult_mapM fun a ha => hf a (List.mem_append_right _ ha)]
  apply renameResult_bind
  intro positional
  apply renameResult_bind
  intro values
  rfl

/-- The named members of a renamed tuple are renamed ones. -/
theorem named_rename (g : α → β) (t : Tuple α) :
    (t.rename r g).named = t.named.map (Prod.map r g) := by
  rw [named, named, layout_rename, Layout.fields_rename, values_rename, List.zip_map]

variable {r} {names names' : Symbol.Names} (hnames : ∀ s, names' (r s) = names s)
include hnames

/-- A renamed symbol has the name of the symbol, or misses it as the symbol does. -/
theorem requireName_rename (s : Symbol) :
    requireName names' (r s) = renameResult (.rename r) id (requireName names s) := by
  unfold requireName
  rw [hnames]
  cases names s with
  | none => rfl
  | some name => rfl

/-- A renamed entry gets the name of the entry. -/
theorem nameEntry_rename (g : α → β) (x : Symbol × α) :
    nameEntry names' (Prod.map r g x)
      = renameResult (.rename r) (Prod.map id g) (nameEntry names x) := by
  unfold nameEntry
  rw [Prod.map_fst, requireName_rename hnames]
  apply renameResult_bind
  intro name
  rfl

/-- A renamed tag gets the name of the tag. -/
theorem mapM_requireName_rename (tag : Option Symbol) :
    (tag.map r).mapM (requireName names')
      = renameResult (.rename r) id (tag.mapM (requireName names)) := by
  cases tag with
  | none => rfl
  | some s =>
      simp only [Option.map_some, Option.mapM_some, requireName_rename hnames]
      apply renameResult_bind
      intro name
      rfl

/-- The canonical form of a renamed tuple has the same names in the same order. -/
theorem toCanonical_rename (g : α → β) (t : Tuple α) :
    (t.rename r g).toCanonical names'
      = renameResult (.rename r) (CanonicalTuple.map g) (t.toCanonical names) := by
  rw [toCanonical_eq, toCanonical_eq, arity_rename, tag_rename, positional_rename, named_rename]
  split_ifs
  · rw [renameResult_mapM fun x _ => nameEntry_rename hnames g x, mapM_requireName_rename hnames]
    apply renameResult_bind
    intro named
    -- sorting looks at the names only, and these are the same
    have hsort : sortByKey Prod.fst (named.map (Prod.map id g))
        = (sortByKey Prod.fst named).map (Prod.map id g) :=
      (map_sortByKey (fun _ => rfl) named).symm
    rw [hsort]
    apply renameResult_bind
    intro tag
    rfl
  · rfl

end Tuple

/-- Renamed values have the same canonical form. -/
theorem Value.canonical_rename {names names' : Symbol.Names} (hnames : ∀ s, names' (r s) = names s)
    {v : Value} (hv : v.WellFormed) :
    (v.rename r).canonical names' = renameResult (.rename r) id (v.canonical names) := by
  induction hv with
  | int n => simp [canonical]
  | str s => simp [canonical]
  | @tuple t shape _ ih =>
      rw [rename_tuple, canonical_tuple, canonical_tuple, Tuple.mapM_rename r ih]
      apply renameResult_bind
      intro members
      rw [Tuple.toCanonical_rename hnames]
      apply renameResult_bind
      intro form
      rw [CanonicalTuple.map_id]
      rfl

end TaggedTuple
