import TaggedTuple.Proofs.Canonical.Loading
import TaggedTuple.Proofs.Transparency.Operations

/-!
# Two runs of the conversion to canonical forms and back

Tuples that agree have equal canonical forms (`Tuple.Agree.toCanonical`): the named members are
sorted by name, so the order in which the layouts declare them is gone. Canonical forms that agree
are read back to tuples that agree, and leave equal symbol tables behind
(`CanonicalTuple.Agree.toTuple`).
-/

namespace TaggedTuple

/-- Errors of the same kind. -/
def EncodingError.SameVariant (e e' : EncodingError) : Prop := e.ctorIdx = e'.ctorIdx

/-- Canonical forms are equal, members compared as values. -/
structure CanonicalTuple.Agree (x y : CanonicalTuple Value) : Prop where
  tag_eq : x.tag = y.tag
  count_eq : x.positionalCount = y.positionalCount
  positional : List.Forall₂ Value.Agree x.positional y.positional
  named : List.Forall₂ EntryAgree x.named y.named

/-! ### To the canonical form -/

/-- Sorting by name does not depend on the order of declaration. -/
theorem sortByKey_renamed_eq {t : Tuple Value} (ht : t.WellFormed) {names : Symbol.Names}
    (hinjective : ∀ s s' name, names s = some name → names s' = some name → s = s')
    (hnamed : ∀ x ∈ t.named, (names x.1).isSome = true) :
    sortByKey Prod.fst (t.named.map (renamed names))
      = sortByKey Prod.fst (t.namedAscending.map (renamed names)) := by
  have hnodup := ht.nodup_keys_renamed hinjective hnamed
  exact sortByKey_eq_of_perm hnodup (t.perm_namedAscending.symm.map _)

section toCanonical

variable {t u : Tuple Value} (h : t.Agree u) {names : Symbol.Names}
include h

/-- Tuples that agree have the same fields, so the same fields have names. -/
theorem Tuple.Agree.forall_named_iff (P : Symbol → Prop) :
    (∀ x ∈ t.named, P x.1) ↔ ∀ x ∈ u.named, P x.1 := by
  rw [h.left.forall_named_iff, h.right.forall_named_iff]
  simp only [h.mem_fields_iff]

/-- Named members are equal one by one when they are sorted by name. -/
theorem Tuple.Agree.sorted_renamed
    (hinjective : ∀ s s' name, names s = some name → names s' = some name → s = s')
    (hnamed : ∀ x ∈ t.named, (names x.1).isSome = true) :
    List.Forall₂ EntryAgree (sortByKey Prod.fst (t.named.map (renamed names)))
      (sortByKey Prod.fst (u.named.map (renamed names))) := by
  have hnamed' := (h.forall_named_iff fun f => (names f).isSome = true).mp hnamed
  have hascending : List.Forall₂ EntryAgree t.namedAscending u.namedAscending :=
    h.rel.namedAscending h.left h.right
  rw [sortByKey_renamed_eq h.left hinjective hnamed,
    sortByKey_renamed_eq h.right hinjective hnamed']
  refine sortByKey_forall₂ (fun x y hxy => hxy.1) ?_
  rw [List.forall₂_map_left_iff, List.forall₂_map_right_iff]
  refine hascending.imp fun x y hxy => ⟨?_, hxy.2⟩
  rw [renamed, renamed, hxy.1]

/-- Tuples that agree have equal canonical forms. -/
theorem Tuple.Agree.toCanonical
    (hinjective : ∀ s s' name, names s = some name → names s' = some name → s = s') :
    ExceptRel EncodingError.SameVariant CanonicalTuple.Agree (t.toCanonical names)
      (u.toCanonical names) := by
  have hfields : (∀ x ∈ t.named, (names x.1).isSome = true) ↔
      ∀ x ∈ u.named, (names x.1).isSome = true :=
    h.forall_named_iff fun f => (names f).isSome = true
  rw [Tuple.toCanonical_eq, Tuple.toCanonical_eq, h.arity_eq, h.rel.tag_eq]
  by_cases harity : u.arity < UInt32.size
  · simp only [if_pos harity]
    rcases mapM_nameEntry_cases names t.named with ⟨hall, ht⟩ | ⟨x, hx, hnone, ht⟩
    · rcases mapM_nameEntry_cases names u.named with ⟨-, hu⟩ | ⟨y, hy, hnone, -⟩
      · rw [ht, hu]
        cases u.tag.mapM (requireName names) with
        | error e => exact .error rfl
        | ok tag => exact .ok ⟨rfl, rfl, h.rel.positional, h.sorted_renamed hinjective hall⟩
      · have hsome := hfields.mp hall y hy
        rw [hnone] at hsome
        cases hsome
    · rcases mapM_nameEntry_cases names u.named with ⟨hall, -⟩ | ⟨y, -, -, hu⟩
      · have hsome := hfields.mpr hall x hx
        rw [hnone] at hsome
        cases hsome
      · rw [ht, hu]
        exact .error rfl
  · simp only [if_neg harity]
    exact .error rfl

end toCanonical

/-! ### From the canonical form -/

/-- Values that agree, paired up with the same symbols. -/
theorem entryAgree_zip {symbols : List Symbol} {vs ws : List Value}
    (h : List.Forall₂ Value.Agree vs ws) :
    List.Forall₂ EntryAgree (symbols.zip vs) (symbols.zip ws) := by
  induction h generalizing symbols with
  | nil => simp
  | cons hvw _ ih =>
      cases symbols with
      | nil => exact .nil
      | cons s symbols => exact .cons ⟨rfl, hvw⟩ ih

namespace CanonicalTuple

/-- Forms that agree have the same names, and the attempts to intern them end in the same way. -/
theorem Agree.tryInterned {x y : CanonicalTuple Value} (h : x.Agree y) (table : SymbolTable) :
    ExceptRel Eq TupleBuilder.Agree (x.tryInterned table).1 (y.tryInterned table).1 ∧
      (x.tryInterned table).2 = (y.tryInterned table).2 := by
  obtain ⟨hkeys, hvalues⟩ := forall₂_pairs_iff.mp h.named
  unfold CanonicalTuple.tryInterned
  rw [← h.tag_eq, ← hkeys]
  rcases tryInternTag table x.tag with ⟨tag | tag, table'⟩
  · exact ⟨.error rfl, rfl⟩
  simp only [SymbolTable.andThen]
  rcases table'.tryInternAll (x.named.map Prod.fst) with ⟨symbols | symbols, table''⟩
  · exact ⟨.error rfl, rfl⟩
  · exact ⟨.ok ⟨rfl, h.positional, entryAgree_zip hvalues⟩, rfl⟩

/-- Canonical forms that agree are read back to tuples that agree, and the same names are
interned. -/
theorem Agree.toTuple {x y : CanonicalTuple Value} (h : x.Agree y) (table : SymbolTable)
    {c d : LayoutCache} (hc : c.Valid) (hd : d.Valid) :
    CachedRel (ExceptRel Eq Tuple.Agree) ((x.toTuple table c).1, (x.toTuple table c).2.2)
        ((y.toTuple table d).1, (y.toTuple table d).2.2) ∧
      (x.toTuple table c).2.1 = (y.toTuple table d).2.1 := by
  by_cases hcount : x.positional.length = x.positionalCount.toNat
  · have hcount' : y.positional.length = y.positionalCount.toNat := by
      rw [← h.positional.length_eq, ← h.count_eq, hcount]
    unfold CanonicalTuple.toTuple
    rw [if_pos hcount, if_pos hcount']
    obtain ⟨hinterned, htable⟩ := h.tryInterned table
    generalize x.tryInterned table = result at hinterned htable ⊢
    generalize y.tryInterned table = result' at hinterned htable ⊢
    obtain ⟨built, table'⟩ := result
    obtain ⟨built', table''⟩ := result'
    obtain rfl : table' = table'' := htable
    cases hinterned with
    | error heq => exact ⟨⟨.error (congrArg EncodingError.intern heq), hc, hd⟩, rfl⟩
    | ok hbuilder =>
        obtain ⟨hresult, hc', hd'⟩ := hbuilder.finish hc hd
        have hread := hresult.mapError EncodingError.tuple fun _ _ => congrArg EncodingError.tuple
        exact ⟨⟨hread, hc', hd'⟩, rfl⟩
  · have hcount' : ¬y.positional.length = y.positionalCount.toNat := by
      rwa [← h.positional.length_eq, ← h.count_eq]
    unfold CanonicalTuple.toTuple
    rw [if_neg hcount, if_neg hcount', h.count_eq, h.positional.length_eq]
    exact ⟨⟨.error rfl, hc, hd⟩, rfl⟩

end CanonicalTuple

end TaggedTuple
