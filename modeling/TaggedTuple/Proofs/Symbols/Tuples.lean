import TaggedTuple.Proofs.Canonical.Loading
import TaggedTuple.Proofs.Symbols.Occurrences
import TaggedTuple.Proofs.Tuple.Built

/-!
# Operations on tuples bring in no symbols

Each operation on layouts and tuples gives results and errors in which only symbols of its
arguments occur. A cache cannot add any: a valid one answers with the fields and the tag that were
asked for, in whatever order it declares them. The exception is loading a canonical form, which
interns its names; the symbols that it adds have names in the table that it leaves
(`CanonicalTuple.allSymbols_toTuple`).
-/

namespace TaggedTuple

variable {α β : Type} [HasSymbols α] [HasSymbols β] {P : Symbol → Prop} {c : LayoutCache}

/-! ### Layouts -/

/-- A list of fields holds these fields. -/
theorem allSymbols_fields_iff {fields : List Symbol} : AllSymbols P fields ↔ ∀ f ∈ fields, P f := by
  simp only [allSymbols_list_iff, allSymbols_symbol]

/-- A layout of a shape holds the fields and the tag of the shape. -/
theorem Layout.HasShape.allSymbols {l : Layout} {positional : Nat} {fields : List Symbol}
    {tag : Option Symbol} (h : l.HasShape positional fields tag) (hfields : AllSymbols P fields)
    (htag : AllSymbols P tag) : AllSymbols P l := by
  rw [allSymbols_layout_iff, h.tag_eq]
  exact ⟨htag, hfields.of_subset h.fields_perm.subset⟩

/-- A field that repeats is one of the fields. -/
theorem allSymbols_repeatedField {fields : List Symbol} (h : AllSymbols P fields) {f : Symbol}
    (hf : repeatedField? fields = some f) : P f :=
  allSymbols_fields_iff.mp h f (mem_of_repeatedField? hf)

/-- A layout that is built, or refused, holds symbols of its declaration. -/
theorem Layout.allSymbols_build {positional : Nat} {fields : List Symbol} {tag : Option Symbol}
    (hfields : AllSymbols P fields) (htag : AllSymbols P tag) :
    AllSymbols P (Layout.build positional fields tag) := by
  cases hf : repeatedField? fields with
  | some f =>
      rw [Layout.build_eq_error hf]
      exact allSymbols_duplicateField.mpr (allSymbols_repeatedField hfields hf)
  | none =>
      have hnodup := repeatedField?_eq_none_iff.mp hf
      rw [Layout.build_eq_ok hnodup]
      exact (Layout.hasShape_declare positional hnodup tag).allSymbols hfields htag

namespace LayoutCache

/-- A layout that a cache answers holds symbols of the request, whichever order it declares. -/
theorem Valid.allSymbols_construct (hc : c.Valid) {positional : Nat} {fields : List Symbol}
    {tag : Option Symbol} (hfields : AllSymbols P fields) (htag : AllSymbols P tag) :
    AllSymbols P (c.construct positional fields tag).1 := by
  rcases hc.construct_cases positional fields tag with
    ⟨f, hf, herror⟩ | ⟨-, shared, c', hok, hshape, -⟩
  · rw [herror]
    exact allSymbols_duplicateField.mpr (allSymbols_repeatedField hfields hf)
  · rw [hok]
    exact hshape.allSymbols hfields htag

/-- A request to a cache brings in no symbols, and keeps the cache valid. -/
theorem Valid.allSymbols_serve (hc : c.Valid) {r : Request} (hr : AllSymbols P r) :
    AllSymbols P (c.serve r).1 ∧ (c.serve r).2.Valid := by
  obtain ⟨hfields, htag⟩ := allSymbols_request_iff.mp hr
  rw [serve_eq_construct]
  exact ⟨hc.allSymbols_construct hfields htag, hc.construct _ _ _⟩

end LayoutCache

/-! ### Construction -/

namespace Tuple

/-- Members that are put in their places keep their symbols; an error names a field of the
members. -/
theorem allSymbols_fill {l : Layout} {places : List (Option α)} {named : List (Symbol × α)}
    (hplaces : AllSymbols P places) (hnamed : AllSymbols P named) :
    AllSymbols P (fill l places named) := by
  induction named generalizing places with
  | nil => exact hplaces
  | cons x named ih =>
      obtain ⟨f, a⟩ := x
      rw [allSymbols_cons, allSymbols_pair] at hnamed
      obtain ⟨⟨hf, ha⟩, hnamed⟩ := hnamed
      rw [fill]
      split
      · exact hf
      · split_ifs
        · exact hf
        · refine ih (allSymbols_list_iff.mpr fun place hplace => ?_) hnamed
          rcases List.mem_or_eq_of_mem_set hplace with hplace | rfl
          · exact allSymbols_list_iff.mp hplaces place hplace
          · exact allSymbols_some.mpr ha

/-- Members that are taken from their places keep their symbols; an error names a declared field. -/
theorem allSymbols_collect {fields : List Symbol} {places : List (Option α)}
    (hfields : AllSymbols P fields) (hplaces : AllSymbols P places) :
    AllSymbols P (collect fields places) := by
  induction fields generalizing places with
  | nil => cases places <;> exact allSymbols_nil
  | cons f fields ih =>
      cases places with
      | nil => exact allSymbols_nil
      | cons place places =>
          rw [allSymbols_cons] at hfields hplaces
          cases place with
          | none => exact hfields.1
          | some a =>
              have hrest := ih hfields.2 hplaces.2
              rw [collect]
              cases hcollect : collect fields places with
              | error e =>
                  rw [hcollect] at hrest
                  exact hrest
              | ok values =>
                  rw [hcollect] at hrest
                  exact allSymbols_cons.mpr ⟨allSymbols_some.mp hplaces.1, hrest⟩

/-- A tuple that is constructed, or refused, holds symbols of its layout and its members. -/
theorem allSymbols_construct {shared : SharedLayout} {positional : List α}
    {named : List (Symbol × α)} (hshared : AllSymbols P shared)
    (hpositional : AllSymbols P positional) (hnamed : AllSymbols P named) :
    AllSymbols P (Tuple.construct shared positional named) := by
  have hempty : AllSymbols P (List.replicate shared.layout.fields.length (none : Option α)) :=
    allSymbols_list_iff.mpr fun slot hslot => by
      rw [List.eq_of_mem_replicate hslot]
      exact allSymbols_none
  rw [Tuple.construct]
  split_ifs
  · refine allSymbols_bind (allSymbols_fill hempty hnamed) fun slots hslots => ?_
    refine allSymbols_bind (allSymbols_collect ?_ hslots) fun values hvalues => ?_
    · exact (allSymbols_layout_iff.mp hshared).2
    · exact allSymbols_tuple_iff.mpr ⟨hshared, hpositional, hvalues⟩
  · exact allSymbols_error.mpr allSymbols_arityMismatch

/-! ### Reading -/

variable {t : Tuple α}

/-- A positional member holds symbols of the tuple. -/
theorem allSymbols_at? (ht : AllSymbols P t) (i : Nat) : AllSymbols P (t.at? i) := by
  unfold at?
  split_ifs
  · exact allSymbols_getElem? (allSymbols_tuple_iff.mp ht).2.1 i
  · exact allSymbols_none

/-- A named member holds symbols of the tuple. -/
theorem allSymbols_field? (ht : AllSymbols P t) (f : Symbol) : AllSymbols P (t.field? f) := by
  unfold field?
  cases t.layout.positionOf? f with
  | none => exact allSymbols_none
  | some i => exact allSymbols_getElem? (allSymbols_tuple_iff.mp ht).2.2 i

/-- A look-up of a field answers symbols of the tuple, or the field itself in an error. -/
theorem allSymbols_getField (ht : AllSymbols P t) {f : Symbol} (hf : P f) :
    AllSymbols P (t.getField f) := by
  have hfield := allSymbols_field? ht f
  unfold getField
  split
  · next a ha =>
      rw [ha] at hfield
      exact hfield
  · exact allSymbols_unknownField.mpr hf

/-- A look-up of an address answers symbols of the tuple, or of the address in an error. -/
theorem allSymbols_getKey (ht : AllSymbols P t) {key : TupleKey} (hkey : AllSymbols P key) :
    AllSymbols P (t.getKey key) := by
  cases key with
  | index i =>
      have hat := allSymbols_at? ht i
      show AllSymbols P (t.get i)
      unfold Tuple.get
      split
      · next a ha =>
          rw [ha] at hat
          exact hat
      · exact allSymbols_error.mpr allSymbols_indexOutOfRange
  | field f => exact allSymbols_getField ht (allSymbols_field.mp hkey)

/-- The named members hold symbols of the tuple. -/
theorem allSymbols_named (ht : AllSymbols P t) : AllSymbols P t.named := by
  obtain ⟨hlayout, -, hvalues⟩ := allSymbols_tuple_iff.mp ht
  exact allSymbols_zip (allSymbols_layout_iff.mp hlayout).2 hvalues

/-! ### Derived tuples -/

/-- A list with an element replaced holds symbols of the list and of the new element. -/
theorem allSymbols_set {l : List α} (hl : AllSymbols P l) (i : Nat) {a : α}
    (ha : AllSymbols P a) : AllSymbols P (l.set i a) :=
  allSymbols_list_iff.mpr fun b hb => by
    rcases List.mem_or_eq_of_mem_set hb with hb | rfl
    · exact allSymbols_list_iff.mp hl b hb
    · exact ha

/-- An update brings in symbols of the address and of the new member only. -/
theorem allSymbols_withUpdated (ht : AllSymbols P t) {key : TupleKey} (hkey : AllSymbols P key)
    {a : α} (ha : AllSymbols P a) : AllSymbols P (t.withUpdated key a) := by
  obtain ⟨hlayout, hpositional, hvalues⟩ := allSymbols_tuple_iff.mp ht
  unfold withUpdated
  cases key with
  | index i =>
      dsimp only
      split_ifs
      · exact allSymbols_tuple_iff.mpr ⟨hlayout, allSymbols_set hpositional i ha, hvalues⟩
      · exact allSymbols_error.mpr allSymbols_indexOutOfRange
  | field f =>
      dsimp only
      split
      · exact hkey
      · next i _ =>
          exact allSymbols_tuple_iff.mpr ⟨hlayout, hpositional, allSymbols_set hvalues i ha⟩

/-- A tuple of results holds the symbols of its layout and of the results. -/
theorem allSymbols_map (ht : AllSymbols P t) {g : α → β}
    (hg : ∀ a ∈ t.members, AllSymbols P (g a)) : AllSymbols P (t.map g) := by
  rw [allSymbols_tuple_iff]
  refine ⟨(allSymbols_tuple_iff.mp ht).1, allSymbols_list_map fun a ha => ?_,
    allSymbols_list_map fun a ha => ?_⟩
  · exact hg a (List.mem_append_left _ ha)
  · exact hg a (List.mem_append_right _ ha)

/-- A tuple of results, or the first error, holds the symbols of the layout and of the results. -/
theorem allSymbols_mapM {ε : Type} [HasSymbols ε] (ht : AllSymbols P t) {g : α → Except ε β}
    (hg : ∀ a ∈ t.members, AllSymbols P (g a)) : AllSymbols P (t.mapM g) := by
  have hpositional : AllSymbols P (t.positional.mapM g) :=
    TaggedTuple.allSymbols_mapM fun a ha => hg a (List.mem_append_left _ ha)
  have hvalues : AllSymbols P (t.values.mapM g) :=
    TaggedTuple.allSymbols_mapM fun a ha => hg a (List.mem_append_right _ ha)
  refine allSymbols_bind hpositional fun positional hpositional => ?_
  refine allSymbols_bind hvalues fun values hvalues => ?_
  have hlayout : AllSymbols P t.layout := (allSymbols_tuple_iff.mp ht).1
  exact allSymbols_ok.mpr (allSymbols_tuple_iff.mpr ⟨hlayout, hpositional, hvalues⟩)

/-- A slice brings in no symbols, and keeps the cache valid. -/
theorem allSymbols_slicePositional (ht : AllSymbols P t) (hc : c.Valid) (start stop : Nat) :
    AllSymbols P (t.slicePositional start stop c).1 ∧ (t.slicePositional start stop c).2.Valid := by
  have hpositional := (allSymbols_tuple_iff.mp ht).2.1
  unfold slicePositional
  split_ifs
  · obtain ⟨shared, c', hshared, hshape, hc'⟩ :=
      hc.exists_positional ((t.positional.take stop).drop start).length
    simp only [hshared]
    refine ⟨allSymbols_tuple_iff.mpr
      ⟨hshape.allSymbols allSymbols_nil allSymbols_none, ?_, ?_⟩, hc'⟩
    · exact hpositional.of_subset fun a ha => List.mem_of_mem_take (List.mem_of_mem_drop ha)
    · exact allSymbols_nil
  · exact ⟨allSymbols_error.mpr allSymbols_indexOutOfRange, hc⟩

/-- A projection brings in symbols of the asked fields only, and keeps the cache valid. -/
theorem allSymbols_projectNamed (ht : AllSymbols P t) (hc : c.Valid) {fields : List Symbol}
    (hfields : AllSymbols P fields) :
    AllSymbols P (t.projectNamed fields c).1 ∧ (t.projectNamed fields c).2.Valid := by
  unfold projectNamed
  rcases hc.construct_cases 0 fields none with
    ⟨f, hf, herror⟩ | ⟨-, shared, c', hok, hshape, hc'⟩
  · rw [herror]
    exact ⟨allSymbols_duplicateField.mpr (allSymbols_repeatedField hfields hf), hc⟩
  · rw [hok]
    have hdeclared := hfields.of_subset hshape.fields_perm.subset
    dsimp only
    rcases t.mapM_getField_cases shared.layout.fields with
      ⟨values, hvalues, hget⟩ | ⟨f, hf, -, herror⟩
    · rw [hvalues]
      refine ⟨allSymbols_tuple_iff.mpr ⟨hshape.allSymbols hfields allSymbols_none, allSymbols_nil,
        allSymbols_list_iff.mpr fun a ha => ?_⟩, hc'⟩
      have hmem : some a ∈ shared.layout.fields.map t.field? := hget ▸ List.mem_map_of_mem ha
      obtain ⟨f, -, hf⟩ := List.mem_map.mp hmem
      exact allSymbols_some.mp (hf ▸ allSymbols_field? ht f)
    · rw [herror]
      exact ⟨allSymbols_unknownField.mpr (allSymbols_fields_iff.mp hdeclared f hf), hc'⟩

end Tuple

/-- A builder is finished without further symbols, and keeps the cache valid. -/
theorem TupleBuilder.allSymbols_finish {b : TupleBuilder α} (hb : AllSymbols P b) (hc : c.Valid) :
    AllSymbols P (b.finish c).1 ∧ (b.finish c).2.Valid := by
  obtain ⟨htag, hpositional, hnamed⟩ := allSymbols_builder_iff.mp hb
  have hfields := allSymbols_map_fst hnamed
  have hanswer : AllSymbols P (c.construct b.positional.length (b.named.map Prod.fst) b.tag).1 :=
    hc.allSymbols_construct hfields htag
  have hvalid := hc.construct b.positional.length (b.named.map Prod.fst) b.tag
  unfold finish
  generalize c.construct b.positional.length (b.named.map Prod.fst) b.tag = result at hanswer hvalid
  obtain ⟨answer, c'⟩ := result
  cases answer with
  | error e => exact ⟨hanswer, hvalid⟩
  | ok shared => exact ⟨Tuple.allSymbols_construct hanswer hpositional hnamed, hvalid⟩

/-! ### Canonical forms -/

/-- A symbol without a name is the only symbol that asking for its name brings in. -/
theorem allSymbols_requireName {names : Symbol.Names} {s : Symbol} (hs : P s) :
    AllSymbols P (requireName names s) := by
  unfold requireName
  split
  · exact allSymbols_ok.mpr allSymbols_string
  · exact allSymbols_error.mpr (allSymbols_unnamed.mpr hs)

/-- A canonical form, or what keeps a tuple from having one, holds symbols of the tuple. -/
theorem Tuple.allSymbols_toCanonical {t : Tuple α} (ht : AllSymbols P t) (names : Symbol.Names) :
    AllSymbols P (t.toCanonical names) := by
  obtain ⟨hlayout, hpositional, -⟩ := allSymbols_tuple_iff.mp ht
  have hnamed : AllSymbols P (t.named.mapM (nameEntry names)) :=
    TaggedTuple.allSymbols_mapM fun x hx => by
      obtain ⟨hf, ha⟩ := allSymbols_pair.mp (allSymbols_list_iff.mp (allSymbols_named ht) x hx)
      have hname : AllSymbols P (requireName names x.1) :=
        allSymbols_requireName (allSymbols_symbol.mp hf)
      exact allSymbols_bind hname fun name hname =>
        allSymbols_ok.mpr (allSymbols_pair.mpr ⟨hname, ha⟩)
  have htag : AllSymbols P (t.tag.mapM (requireName names)) := by
    have hs : AllSymbols P t.tag := (allSymbols_layout_iff.mp hlayout).1
    cases htag : t.tag with
    | none => exact allSymbols_ok.mpr allSymbols_none
    | some s =>
        rw [htag, allSymbols_some, allSymbols_symbol] at hs
        exact allSymbols_bind (allSymbols_requireName hs) fun name hname =>
          allSymbols_ok.mpr (allSymbols_some.mpr hname)
  rw [toCanonical_eq]
  dsimp only
  split_ifs
  · refine allSymbols_bind (allSymbols_ok.mpr allSymbols_unit) fun _ _ => ?_
    refine allSymbols_bind hnamed fun named hnamed => allSymbols_bind htag fun tag _ => ?_
    refine allSymbols_ok.mpr (allSymbols_canonical_iff.mpr ⟨hpositional, ?_⟩)
    exact hnamed.of_subset fun x hx => mem_sortByKey.mp hx
  · exact allSymbols_error.mpr allSymbols_tooManyPositional

/-- The symbols of a form that is read back are those of its members and symbols with names in the
table that is left. -/
theorem CanonicalTuple.allSymbols_toTuple {x : CanonicalTuple α} (hx : AllSymbols P x)
    {table : SymbolTable} (htable : table.Valid) (hc : c.Valid)
    (hnamed : ∀ s, ((x.toTuple table c).2.1.name? s).isSome = true → P s) :
    AllSymbols P (x.toTuple table c).1 ∧ (x.toTuple table c).2.2.Valid := by
  obtain ⟨hpositional, hmembers⟩ := allSymbols_canonical_iff.mp hx
  by_cases hcount : x.positional.length = x.positionalCount.toNat
  · by_cases hfits : x.FitsIn table
    case neg =>
      obtain ⟨left, herror, -⟩ := toTuple_eq_error c hcount hfits
      rw [herror]
      exact ⟨allSymbols_error.mpr allSymbols_internError, hc⟩
    rw [toTuple_eq c hcount hfits] at hnamed ⊢
    obtain ⟨-, htag, hentries⟩ := x.interned_named htable
    have hbuilder : AllSymbols P (x.interned table).1 := by
      refine allSymbols_builder_iff.mpr ⟨?_, hpositional, allSymbols_list_iff.mpr fun e he => ?_⟩
      · cases hs : (x.interned table).1.tag with
        | none => exact allSymbols_none
        | some s =>
            rw [hs] at htag
            obtain ⟨name, -, hname⟩ := exists_of_rel_some htag
            exact allSymbols_some.mpr (allSymbols_symbol.mpr (hnamed s (by simp [hname])))
      · obtain ⟨m, hm, hname, hvalue⟩ := forall₂_exists_right hentries.flip e he
        refine allSymbols_pair.mpr ⟨allSymbols_symbol.mpr (hnamed e.1 (by simp [hname])), ?_⟩
        rw [hvalue]
        exact (allSymbols_pair.mp (allSymbols_list_iff.mp hmembers m hm)).2
    obtain ⟨hresult, hvalid⟩ := TupleBuilder.allSymbols_finish hbuilder hc
    refine ⟨?_, hvalid⟩
    dsimp only
    cases hfinish : ((x.interned table).1.finish c).1 with
    | error e =>
        rw [hfinish] at hresult
        exact allSymbols_error.mpr (allSymbols_tupleError.mpr hresult)
    | ok t =>
        rw [hfinish] at hresult
        exact hresult
  · rw [toTuple_of_count_ne table c hcount]
    exact ⟨allSymbols_error.mpr allSymbols_positionalCount, hc⟩

end TaggedTuple
