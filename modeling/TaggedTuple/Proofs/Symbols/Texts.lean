import TaggedTuple.Proofs.Canonical.Form
import TaggedTuple.Proofs.Symbols.Occurrences
import TaggedTuple.Ty.Relation

/-!
# Texts of things whose symbols have names

A text or a report needs the names of the symbols that it mentions, and it is missing when one of
them has none. Here is the other direction: when all symbols that occur in a thing have names
(`Symbol.Names.Knows`), the thing has a text, its report can be written, and its canonical form
needs no name that is missing. `Symbol.Names.Resolves` puts these statements together.
-/

namespace TaggedTuple

/-- The symbol has a name. -/
def Symbol.Names.Knows (names : Symbol.Names) (s : Symbol) : Prop := (names s).isSome = true

variable {α : Type} [HasSymbols α] {names : Symbol.Names}

open Symbol.Names (Knows)

/-! ### Optional results -/

/-- A text that is there goes on to a text wherever the continuation always has one. -/
theorem isSome_bind_of_forall {β γ : Type} {x : Option β} {f : β → Option γ}
    (hx : x.isSome = true) (hf : ∀ b, (f b).isSome = true) : (x >>= f).isSome = true := by
  obtain ⟨b, rfl⟩ := Option.isSome_iff_exists.mp hx
  exact hf b

/-- The texts of a list are there if the text of each element is. -/
theorem isSome_mapM_of_forall {β γ : Type} {g : β → Option γ} {l : List β}
    (h : ∀ b ∈ l, (g b).isSome = true) : (l.mapM g).isSome = true := by
  induction l with
  | nil => rfl
  | cons b l ih =>
      rw [List.mapM_cons]
      refine isSome_bind_of_forall (h b List.mem_cons_self) fun c => ?_
      refine isSome_bind_of_forall (ih fun b hb => h b (List.mem_cons_of_mem _ hb)) fun cs => ?_
      rfl

/-- A tag has a text in front of the members, also when there is none. -/
theorem isSome_elim_of_knows {tag : Option Symbol} (h : AllSymbols names.Knows tag) :
    (tag.elim (some "") names).isSome = true := by
  cases tag with
  | none => rfl
  | some s => exact allSymbols_symbol.mp (allSymbols_some.mp h)

/-- A known tag can be described. -/
theorem isSome_describeTag {tag : Option Symbol} (h : AllSymbols names.Knows tag) :
    (describeTag names tag).isSome = true := by
  cases tag with
  | none => rfl
  | some s =>
      have hs : (names s).isSome = true := allSymbols_symbol.mp (allSymbols_some.mp h)
      rw [describeTag, Option.isSome_map]
      exact hs

/-! ### Layouts, tuples, values and types -/

/-- A layout of known symbols can be rendered. -/
theorem Layout.isSome_render {l : Layout} (h : AllSymbols names.Knows l) :
    (l.render names).isSome = true := by
  obtain ⟨htag, hfields⟩ := allSymbols_layout_iff.mp h
  refine isSome_bind_of_forall (isSome_elim_of_knows htag) fun tag => ?_
  refine isSome_bind_of_forall (isSome_mapM_of_forall fun f hf => ?_) fun fields => rfl
  exact allSymbols_symbol.mp (allSymbols_list_iff.mp hfields f hf)

/-- A tuple of texts on a layout of known symbols can be rendered. -/
theorem Tuple.isSome_render {t : Tuple (Option String)} (hlayout : AllSymbols names.Knows t.layout)
    (hmembers : ∀ text ∈ t.members, text.isSome = true) : (t.render names).isSome = true := by
  obtain ⟨htag, hfields⟩ := allSymbols_layout_iff.mp hlayout
  have hpositional : (t.positional.mapM id).isSome = true :=
    isSome_mapM_of_forall fun text htext => hmembers text (List.mem_append_left _ htext)
  refine isSome_bind_of_forall (isSome_elim_of_knows htag) fun tag => ?_
  refine isSome_bind_of_forall hpositional fun positional => ?_
  refine isSome_bind_of_forall (isSome_mapM_of_forall fun x hx => ?_) fun named => rfl
  obtain ⟨hf, htext⟩ := List.of_mem_zip (a := x.1) (b := x.2) hx
  refine isSome_bind_of_forall (allSymbols_symbol.mp (allSymbols_list_iff.mp hfields x.1 hf)) ?_
  intro name
  exact isSome_bind_of_forall (hmembers x.2 (List.mem_append_right _ htext)) fun text => rfl

/-- A tuple of known symbols can be rendered if its members can. -/
theorem Tuple.isSome_render_map {t : Tuple α} (ht : AllSymbols names.Knows t)
    {text : α → Option String} (htext : ∀ a ∈ t.members, (text a).isSome = true) :
    ((t.map text).render names).isSome = true := by
  refine isSome_render (t := t.map text) (allSymbols_tuple_iff.mp ht).1 ?_
  rw [members_map]
  exact List.forall_mem_map.mpr htext

/-- A value of known symbols can be rendered. -/
theorem Value.isSome_render {v : Value} (hv : AllSymbols names.Knows v) :
    (v.render names).isSome = true := by
  induction v using Value.induction with
  | int n => rfl
  | str s => rfl
  | tuple t ih =>
      have ht : AllSymbols names.Knows t := allSymbols_tuple.mp hv
      rw [render_tuple]
      exact Tuple.isSome_render_map ht fun v hmem =>
        ih v hmem ((allSymbols_layout_and_members ht).2 v hmem)

/-- A type of known symbols can be rendered. -/
theorem Ty.isSome_render {a : Ty} (ha : AllSymbols names.Knows a) :
    (a.render names).isSome = true := by
  induction a using Ty.induction with
  | unknown => rfl
  | void => rfl
  | scalar s => rfl
  | tuple t ih =>
      have ht : AllSymbols names.Knows t := allSymbols_tuple.mp ha
      rw [render_tuple]
      exact Tuple.isSome_render_map ht fun a hmem =>
        ih a hmem ((allSymbols_layout_and_members ht).2 a hmem)
  | union members ih =>
      rw [allSymbols_union, allSymbols_list_iff] at ha
      rw [render, renderEach_eq_map, renderUnion]
      split_ifs
      · rfl
      · rw [Option.isSome_map]
        exact isSome_mapM_of_forall (List.forall_mem_map.mpr fun a hmem => ih a hmem (ha a hmem))

/-! ### Errors and failures -/

/-- An error of a tuple with known symbols can be reported. -/
theorem TupleError.isSome_diagnose {e : TupleError} (he : AllSymbols names.Knows e) (span : Span) :
    (e.diagnose span names).isSome = true := by
  cases e with
  | duplicateField f =>
      exact isSome_bind_of_forall (allSymbols_duplicateField.mp he) fun name => rfl
  | unknownField f => exact isSome_bind_of_forall (allSymbols_unknownField.mp he) fun name => rfl
  | missingField f => exact isSome_bind_of_forall (allSymbols_missingField.mp he) fun name => rfl
  | arityMismatch expected found => rfl
  | indexOutOfRange index length => rfl

/-- An error of a pattern with known symbols can be reported. -/
theorem PatternError.isSome_diagnose {e : PatternError} (he : AllSymbols names.Knows e)
    (span : Span) : (e.diagnose span names).isSome = true := by
  cases e with
  | multipleRest first second => rfl
  | capture inner =>
      exact isSome_bind_of_forall (TupleError.isSome_diagnose (allSymbols_capture.mp he) span)
        fun cause => rfl

/-- A failure with known symbols can be described. -/
theorem MatchFailure.isSome_describe {failure : MatchFailure}
    (h : AllSymbols names.Knows failure) : (failure.describe names).isSome = true := by
  cases failure with
  | tagMismatch expected found =>
      obtain ⟨hexpected, hfound⟩ := allSymbols_failure_tagMismatch.mp h
      refine isSome_bind_of_forall (isSome_describeTag hexpected) fun expected => ?_
      exact isSome_bind_of_forall (isSome_describeTag hfound) fun found => rfl
  | missingField f =>
      exact isSome_bind_of_forall (allSymbols_failure_missingField.mp h) fun name => rfl
  | arityMismatch expected found hasRest => rfl
  | notATuple => rfl
  | literalMismatch => rfl

/-- A failure with known symbols can be reported. -/
theorem MatchFailure.isSome_diagnose {failure : MatchFailure}
    (h : AllSymbols names.Knows failure) (span : Span) :
    (failure.diagnose span names).isSome = true :=
  isSome_bind_of_forall (isSome_describe h) fun _ => rfl

/-! ### Mismatches -/

/-- A kind of mismatch with known symbols can be described. -/
theorem MismatchKind.isSome_describe {kind : MismatchKind} (h : AllSymbols names.Knows kind) :
    (kind.describe names).isSome = true := by
  cases kind with
  | incompatible expected found =>
      obtain ⟨hexpected, hfound⟩ := allSymbols_kind_incompatible.mp h
      refine isSome_bind_of_forall (Ty.isSome_render hexpected) fun expected => ?_
      exact isSome_bind_of_forall (Ty.isSome_render hfound) fun found => rfl
  | positionalArity expected found => rfl
  | tagMismatch expected found =>
      obtain ⟨hexpected, hfound⟩ := allSymbols_kind_tagMismatch.mp h
      refine isSome_bind_of_forall (isSome_describeTag hexpected) fun expected => ?_
      exact isSome_bind_of_forall (isSome_describeTag hfound) fun found => rfl
  | missingField f =>
      exact isSome_bind_of_forall (allSymbols_kind_missingField.mp h) fun name => rfl
  | extraField f => exact isSome_bind_of_forall (allSymbols_kind_extraField.mp h) fun name => rfl

namespace TypeMismatch

variable {m : TypeMismatch} (h : AllSymbols names.Knows m)
include h

/-- A path of known symbols can be rendered. -/
theorem isSome_renderPath : (m.renderPath names).isSome = true := by
  have hpath := allSymbols_list_iff.mp (allSymbols_mismatch_iff.mp h).1
  rw [renderPath, Option.isSome_map]
  refine isSome_mapM_of_forall fun key hkey => ?_
  cases key with
  | index i => rfl
  | field f =>
      have hf : (names f).isSome = true := allSymbols_field.mp (hpath (.field f) hkey)
      rw [renderStep, Option.isSome_map]
      exact hf

/-- A mismatch with known symbols can be reported. -/
theorem isSome_diagnose (span : Span) : (m.diagnose span names).isSome = true := by
  refine isSome_bind_of_forall
    (MismatchKind.isSome_describe (allSymbols_mismatch_iff.mp h).2) fun label => ?_
  dsimp only
  split_ifs
  · rfl
  · exact isSome_bind_of_forall (isSome_renderPath h) fun path => rfl

end TypeMismatch

/-! ### Canonical forms -/

/-- The conversion asks for no name that is missing: the only reason for it to fail is the number of
positional members. -/
theorem Tuple.toCanonical_cases {t : Tuple α} (ht : AllSymbols names.Knows t) :
    (∃ x, t.toCanonical names = .ok x) ∨
      t.toCanonical names = .error (.tooManyPositional t.arity) := by
  by_cases harity : t.arity < UInt32.size
  · obtain ⟨htag, hfields⟩ := allSymbols_layout_iff.mp (allSymbols_tuple_iff.mp ht).1
    rcases mapM_nameEntry_cases names t.named with ⟨-, hnamed⟩ | ⟨x, hx, hnone, -⟩
    · rcases mapM_requireName_cases names t.tag with ⟨-, hname⟩ | ⟨s, hs, hnone, -⟩
      · left
        rw [toCanonical_eq, if_pos harity, hnamed, hname]
        exact ⟨_, rfl⟩
      · have hs' : (names s).isSome = true := by
          have hmem : AllSymbols names.Knows t.tag := htag
          rw [hs] at hmem
          exact allSymbols_symbol.mp (allSymbols_some.mp hmem)
        rw [hnone] at hs'
        cases hs'
    · have hf := allSymbols_list_iff.mp hfields x.1 (List.of_mem_zip (a := x.1) (b := x.2) hx).1
      have hs : (names x.1).isSome = true := allSymbols_symbol.mp hf
      rw [hnone] at hs
      cases hs
  · exact .inr (toCanonical_eq_error (Nat.le_of_not_lt harity))

/-! ### All of them -/

/-- Whatever is made of the given symbols has a text and a report, and its canonical form needs no
name that is missing. -/
structure Symbol.Names.Resolves (names : Symbol.Names) (P : Symbol → Prop) : Prop where
  layout : ∀ l : Layout, AllSymbols P l → (l.render names).isSome = true
  /-- The text of a tuple is missing only when the text of a member is. -/
  tuple : ∀ {α : Type} [HasSymbols α] (t : Tuple α) (text : α → Option String), AllSymbols P t →
    (∀ a ∈ t.members, (text a).isSome = true) → ((t.map text).render names).isSome = true
  value : ∀ v : Value, AllSymbols P v → (v.render names).isSome = true
  ty : ∀ a : Ty, AllSymbols P a → (a.render names).isSome = true
  path : ∀ m : TypeMismatch, AllSymbols P m → (m.renderPath names).isSome = true
  mismatch : ∀ (m : TypeMismatch) span, AllSymbols P m → (m.diagnose span names).isSome = true
  tupleError : ∀ (e : TupleError) span, AllSymbols P e → (e.diagnose span names).isSome = true
  patternError : ∀ (e : PatternError) span, AllSymbols P e → (e.diagnose span names).isSome = true
  failure : ∀ (e : MatchFailure) span, AllSymbols P e → (e.diagnose span names).isSome = true
  canonical : ∀ {α : Type} [HasSymbols α] (t : Tuple α), AllSymbols P t →
    (∃ x, t.toCanonical names = .ok x) ∨
      t.toCanonical names = .error (.tooManyPositional t.arity)

/-- Symbols with names are enough. -/
theorem Symbol.Names.resolves_of_knows {P : Symbol → Prop} (h : ∀ s, P s → names.Knows s) :
    names.Resolves P where
  layout _ hl := Layout.isSome_render (hl.imp h)
  tuple _ _ ht htext := Tuple.isSome_render_map (ht.imp h) htext
  value _ hv := Value.isSome_render (hv.imp h)
  ty _ ha := Ty.isSome_render (ha.imp h)
  path _ hm := TypeMismatch.isSome_renderPath (hm.imp h)
  mismatch _ span hm := TypeMismatch.isSome_diagnose (hm.imp h) span
  tupleError _ span he := TupleError.isSome_diagnose (he.imp h) span
  patternError _ span he := PatternError.isSome_diagnose (he.imp h) span
  failure _ span he := MatchFailure.isSome_diagnose (he.imp h) span
  canonical _ ht := Tuple.toCanonical_cases (ht.imp h)

end TaggedTuple
