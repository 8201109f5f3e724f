import TaggedTuple.Proofs.Pattern.Parts
import TaggedTuple.Proofs.Pattern.RestMarkers
import TaggedTuple.Proofs.Symbols.Tuples

/-!
# Matches bring in no symbols

A match binds names of the pattern to parts of the value, and to tuples that it captures; a failure
reports a tag or a field. Only symbols of the pattern and of the value occur in any of them
(`Matching.Carries`), whatever the cache keeps, and the same holds of a match against a layout.
-/

namespace TaggedTuple

variable {α : Type} [HasSymbols α] {P : Symbol → Prop} {c : LayoutCache}

/-! ### Bindings -/

namespace Bindings

/-- A binding adds its name and the symbols of its value to a list of bindings. -/
theorem allSymbols_bindEntry {name : Symbol} {a : α} {l : List (Symbol × α)} (hname : P name)
    (ha : AllSymbols P a) (hl : AllSymbols P l) : AllSymbols P (bindEntry name a l) := by
  induction l with
  | nil => simp [bindEntry, hname, ha]
  | cons x l ih =>
      obtain ⟨⟨hbound, hold⟩, htail⟩ :
          (AllSymbols P x.1 ∧ AllSymbols P x.2) ∧ AllSymbols P l := by
        rwa [allSymbols_cons, allSymbols_pair] at hl
      rw [bindEntry]
      split_ifs
      · exact allSymbols_cons.mpr ⟨allSymbols_pair.mpr ⟨hbound, ha⟩, htail⟩
      · exact allSymbols_cons.mpr ⟨allSymbols_pair.mpr ⟨hbound, hold⟩, ih htail⟩

/-- Collecting bindings drops some and adds none. -/
theorem allSymbols_ofList {l : List (Symbol × α)} (hl : AllSymbols P l) :
    AllSymbols P (ofList l) := by
  have hfold : ∀ b : Bindings α, AllSymbols P b →
      AllSymbols P (l.foldl (fun b x => b.bind x.1 x.2) b) := by
    induction l with
    | nil => exact fun b hb => hb
    | cons x l ih =>
        intro b hb
        obtain ⟨hx, htail⟩ := allSymbols_cons.mp hl
        obtain ⟨hname, ha⟩ := allSymbols_pair.mp hx
        exact ih htail _ (allSymbols_bindEntry (allSymbols_symbol.mp hname) ha hb)
  exact hfold empty allSymbols_nil

end Bindings

/-! ### Steps of a match -/

namespace Matching

/-- On any valid cache the match binds and reports symbols with the property only. -/
def Carries (P : Symbol → Prop) (m : Matching α) : Prop :=
  ∀ c : LayoutCache, c.Valid → AllSymbols P (m c).1 ∧ (m c).2.Valid

/-- A match that binds nothing brings in no symbols. -/
theorem carries_nothing : (nothing : Matching α).Carries P :=
  fun _ hc => ⟨allSymbols_ok.mpr allSymbols_nil, hc⟩

/-- A match that binds a name brings in the name and the symbols of the value. -/
theorem carries_bind {name : Symbol} {a : α} (hname : P name) (ha : AllSymbols P a) :
    (bind name a).Carries P :=
  fun _ hc => ⟨allSymbols_ok.mpr (by simp [hname, ha]), hc⟩

/-- A match that fails brings in the symbols of its failure. -/
theorem carries_fail {failure : MatchFailure} (h : AllSymbols P failure) :
    (fail failure : Matching α).Carries P :=
  fun _ hc => ⟨allSymbols_error.mpr (allSymbols_halt_failed.mpr h), hc⟩

/-- Two matches in turn bring in what each of them brings in. -/
theorem Carries.followedBy {m m' : Matching α} (h : m.Carries P) (h' : m'.Carries P) :
    (m.followedBy m').Carries P := by
  intro c hc
  obtain ⟨hbound, hc⟩ := h c hc
  unfold Matching.followedBy
  generalize m c = result at hbound hc ⊢
  obtain ⟨bound, c'⟩ := result
  cases bound with
  | error halt => exact ⟨hbound, hc⟩
  | ok bound =>
      obtain ⟨hmore, hc⟩ := h' c' hc
      dsimp only
      generalize m' c' = result at hmore hc ⊢
      obtain ⟨more, c''⟩ := result
      cases more with
      | error halt => exact ⟨hmore, hc⟩
      | ok more => exact ⟨allSymbols_ok.mpr (allSymbols_append.mpr ⟨hbound, hmore⟩), hc⟩

/-- A capture brings in its name and the symbols of the tuple that it builds. -/
theorem carries_capture {wrap : Tuple α → α} (hwrap : ∀ t, AllSymbols P t → AllSymbols P (wrap t))
    {name : Symbol} (hname : P name)
    {build : LayoutCache → Except TupleError (Tuple α) × LayoutCache}
    (hbuild : ∀ c : LayoutCache, c.Valid → AllSymbols P (build c).1 ∧ (build c).2.Valid) :
    (capture wrap name build).Carries P := by
  intro c hc
  obtain ⟨hbuilt, hc⟩ := hbuild c hc
  unfold capture
  generalize build c = result at hbuilt hc ⊢
  obtain ⟨built, c'⟩ := result
  cases built with
  | error e => exact ⟨hbuilt, hc⟩
  | ok t =>
      have hbound : AllSymbols P [(name, wrap t)] := by simp [hname, hwrap t hbuilt]
      exact ⟨allSymbols_ok.mpr hbound, hc⟩

/-- The outcome of a match holds no symbols but those that the match carries. -/
theorem Carries.outcome {m : Matching α} (h : m.Carries P) (hc : c.Valid) :
    AllSymbols P (m.outcome c).1 ∧ (m.outcome c).2.Valid := by
  obtain ⟨hbound, hc⟩ := h c hc
  unfold Matching.outcome
  generalize m c = result at hbound hc ⊢
  obtain ⟨bound, c'⟩ := result
  cases bound with
  | ok bound => exact ⟨Bindings.allSymbols_ofList hbound, hc⟩
  | error halt => cases halt <;> exact ⟨hbound, hc⟩

end Matching

/-! ### Tuple patterns -/

/-- The part binds and reports symbols with the property only. -/
def PositionalPattern.Carries (P : Symbol → Prop) : PositionalPattern (α → Matching α) → Prop
  | .sub run => ∀ a, AllSymbols P a → (run a).Carries P
  | .rest name => AllSymbols P name

/-- The sub-pattern binds and reports symbols with the property only. -/
def FieldPattern.Carries (P : Symbol → Prop) : FieldPattern (α → Matching α) → Prop
  | .shorthand => True
  | .sub run => ∀ a, AllSymbols P a → (run a).Carries P

namespace TuplePattern

/-- A failed tag check reports the required tag and the one that was found. -/
theorem allSymbols_checkTag {π : Type} {p : TuplePattern π} (hp : AllSymbols P p.tag)
    {found : Option Symbol} (hfound : AllSymbols P found) : AllSymbols P (p.checkTag found) := by
  unfold checkTag
  cases htag : p.tag with
  | none => exact allSymbols_ok.mpr allSymbols_unit
  | some requirement =>
      rw [htag] at hp
      dsimp only
      split_ifs
      · exact allSymbols_ok.mpr allSymbols_unit
      · refine allSymbols_error.mpr (allSymbols_failure_tagMismatch.mpr ⟨?_, hfound⟩)
        exact allSymbols_expected (allSymbols_some.mp hp)

/-- A pattern that does not line up reports numbers only. -/
theorem allSymbols_align {π : Type} (p : TuplePattern π) (count : Nat) :
    AllSymbols P (p.align count) := by
  unfold align
  split <;> split_ifs
  · exact allSymbols_ok.mpr allSymbols_alignment
  · exact allSymbols_error.mpr allSymbols_failure_arityMismatch
  · exact allSymbols_ok.mpr allSymbols_alignment
  · exact allSymbols_error.mpr allSymbols_failure_arityMismatch

/-- The fields that a pattern does not mention are fields of the layout. -/
theorem allSymbols_unmentioned {π : Type} (p : TuplePattern π) {l : Layout}
    (hl : AllSymbols P l) : AllSymbols P (p.unmentioned l) :=
  (allSymbols_layout_iff.mp hl).2.of_subset (List.filter_subset_self _)

section parts

variable {wrap : Tuple α → α} (hwrap : ∀ t, AllSymbols P t → AllSymbols P (wrap t)) {t : Tuple α}
  (ht : AllSymbols P t)
include hwrap ht

/-- The positional parts bring in symbols of the parts and of the tuple. -/
theorem carries_matchPositional (alignment : Alignment) (i : Nat)
    {parts : List (PositionalPattern (α → Matching α))} (hparts : ∀ part ∈ parts, part.Carries P) :
    (matchPositional wrap alignment t i parts).Carries P := by
  induction parts generalizing i with
  | nil => exact Matching.carries_nothing
  | cons part parts ih =>
      obtain ⟨hpart, htail⟩ := List.forall_mem_cons.mp hparts
      cases part with
      | rest name =>
          cases name with
          | none =>
              rw [matchPositional]
              exact ih (i + 1) htail
          | some name =>
              rw [matchPositional]
              refine Matching.Carries.followedBy ?_ (ih (i + 1) htail)
              have hname : P name := allSymbols_symbol.mp (allSymbols_some.mp hpart)
              exact Matching.carries_capture hwrap hname fun c hc =>
                Tuple.allSymbols_slicePositional ht hc alignment.restStart alignment.restStop
      | sub run =>
          rw [matchPositional]
          cases hvalue : (alignment.valueIndex? i).bind t.at? with
          | none => exact ih (i + 1) htail
          | some a =>
              obtain ⟨j, -, hj⟩ := Option.bind_eq_some_iff.mp hvalue
              have ha : AllSymbols P a := allSymbols_some.mp (hj ▸ Tuple.allSymbols_at? ht j)
              exact (hpart a ha).followedBy (ih (i + 1) htail)

omit hwrap in
/-- The parts for fields bring in symbols of the parts and of the tuple. -/
theorem carries_matchFields {parts : List (Symbol × FieldPattern (α → Matching α))}
    (hparts : ∀ part ∈ parts, P part.1 ∧ part.2.Carries P) :
    (matchFields t parts).Carries P := by
  induction parts with
  | nil => exact Matching.carries_nothing
  | cons part parts ih =>
      obtain ⟨⟨hkey, hpart⟩, htail⟩ := List.forall_mem_cons.mp hparts
      obtain ⟨key, part⟩ := part
      rw [matchFields]
      cases hvalue : t.field? key with
      | none => exact Matching.carries_fail (allSymbols_failure_missingField.mpr hkey)
      | some a =>
          have ha : AllSymbols P a := allSymbols_some.mp (hvalue ▸ Tuple.allSymbols_field? ht key)
          refine Matching.Carries.followedBy ?_ (ih htail)
          cases part with
          | shorthand => exact Matching.carries_bind hkey ha
          | sub run => exact hpart a ha

/-- A tuple pattern brings in symbols of its parts and of the tuple. -/
theorem carries_matchParts {p : TuplePattern (α → Matching α)} (htag : AllSymbols P p.tag)
    (hpositional : ∀ part ∈ p.positional, part.Carries P)
    (hfields : ∀ part ∈ p.fields, P part.1 ∧ part.2.Carries P)
    (hrest : AllSymbols P p.namedRest) : (matchParts wrap p t).Carries P := by
  have hlayout : AllSymbols P t.layout := (allSymbols_tuple_iff.mp ht).1
  have hcheck : AllSymbols P (p.checkTag t.tag) :=
    allSymbols_checkTag htag (allSymbols_layout_iff.mp hlayout).1
  have halign : AllSymbols P (p.align t.arity) := p.allSymbols_align t.arity
  have hcapture : (matchNamedRest wrap p t).Carries P := by
    unfold matchNamedRest
    cases hname : p.namedRest with
    | none => exact Matching.carries_nothing
    | some name =>
        rw [hname, allSymbols_some, allSymbols_symbol] at hrest
        exact Matching.carries_capture hwrap hrest fun c hc =>
          Tuple.allSymbols_projectNamed ht hc (p.allSymbols_unmentioned hlayout)
  unfold matchParts
  generalize p.checkTag t.tag = tagCheck at hcheck ⊢
  generalize p.align t.arity = alignment at halign ⊢
  cases tagCheck with
  | error failure => exact Matching.carries_fail hcheck
  | ok _ =>
      cases alignment with
      | error failure => exact Matching.carries_fail halign
      | ok alignment =>
          exact (carries_matchPositional hwrap ht alignment 0 hpositional).followedBy
            ((carries_matchFields ht hfields).followedBy hcapture)

end parts

end TuplePattern

/-! ### Patterns -/

/-- A match brings in symbols of the pattern and of the value. -/
theorem Pattern.carries_matchInto {p : Pattern} (hp : AllSymbols P p) {v : Value}
    (hv : AllSymbols P v) : (p.matchInto v).Carries P := by
  induction p using Pattern.induction generalizing v with
  | wildcard => exact Matching.carries_nothing
  | bind name => exact Matching.carries_bind (allSymbols_bind.mp hp) hv
  | literal l =>
      rw [matchInto]
      split_ifs
      · exact Matching.carries_nothing
      · exact Matching.carries_fail allSymbols_literalMismatch
  | tuple p ihPositional ihFields =>
      obtain ⟨htag, hpositional, hfields, hrest⟩ :=
        allSymbols_tuplePattern_iff.mp (allSymbols_tuple.mp hp)
      rw [allSymbols_list_iff] at hpositional hfields
      cases v with
      | int n => exact Matching.carries_fail allSymbols_notATuple
      | str s => exact Matching.carries_fail allSymbols_notATuple
      | tuple t =>
          have ht : AllSymbols P t := Value.allSymbols_tuple.mp hv
          rw [matchInto_tuple]
          refine TuplePattern.carries_matchParts (fun _ hu => Value.allSymbols_tuple.mpr hu) ht htag
            (List.forall_mem_map.mpr fun part hpart => ?_)
            (List.forall_mem_map.mpr fun part hpart => ?_) hrest
          · have hsymbols := hpositional part hpart
            cases part with
            | rest name => exact hsymbols
            | sub q => exact fun a ha => ihPositional q hpart hsymbols ha
          · obtain ⟨key, part⟩ := part
            obtain ⟨hkey, hsymbols⟩ := allSymbols_pair.mp (hfields _ hpart)
            refine ⟨allSymbols_symbol.mp hkey, ?_⟩
            cases part with
            | shorthand => trivial
            | sub q => exact fun a ha => ihFields key q hpart hsymbols ha

/-- A match of a tuple brings in symbols of the pattern and of the tuple. -/
theorem TuplePattern.carries_matchInto {p : TuplePattern Pattern} (hp : AllSymbols P p)
    {t : Tuple Value} (ht : AllSymbols P t) : (p.matchInto t).Carries P := by
  have hmatch := Pattern.carries_matchInto (Pattern.allSymbols_tuple.mpr hp)
    (Value.allSymbols_tuple.mpr ht)
  rwa [Pattern.matchInto_tuple] at hmatch

/-- A malformed pattern is reported by the positions of its markers. -/
theorem Pattern.allSymbols_validate (p : Pattern) : AllSymbols P p.validate := by
  rw [validate_eq]
  cases p.firstRepeated? with
  | none => exact allSymbols_ok.mpr allSymbols_unit
  | some positions => exact allSymbols_error.mpr allSymbols_multipleRest

/-- The check of a tuple pattern reports positions, and no symbols. -/
theorem TuplePattern.allSymbols_validate (p : TuplePattern Pattern) :
    AllSymbols P p.validate := by
  rw [← Pattern.validate_tuple_eq]
  exact (Pattern.tuple p).allSymbols_validate

/-- The outcome of a match holds symbols of the pattern and of the value. -/
theorem Pattern.allSymbols_matchValue {p : Pattern} (hp : AllSymbols P p) {v : Value}
    (hv : AllSymbols P v) (hc : c.Valid) :
    AllSymbols P (p.matchValue v c).1 ∧ (p.matchValue v c).2.Valid := by
  have herror := p.allSymbols_validate (P := P)
  unfold matchValue
  generalize p.validate = verdict at herror ⊢
  cases verdict with
  | error e => exact ⟨herror, hc⟩
  | ok _ => exact (carries_matchInto hp hv).outcome hc

namespace TuplePattern

/-- The outcome of a match of a tuple holds symbols of the pattern and of the tuple. -/
theorem allSymbols_matchTuple {p : TuplePattern Pattern} (hp : AllSymbols P p) {t : Tuple Value}
    (ht : AllSymbols P t) (hc : c.Valid) :
    AllSymbols P (p.matchTuple t c).1 ∧ (p.matchTuple t c).2.Valid := by
  have herror := p.allSymbols_validate (P := P)
  unfold matchTuple
  generalize p.validate = verdict at herror ⊢
  cases verdict with
  | error e => exact ⟨herror, hc⟩
  | ok _ => exact (carries_matchInto hp ht).outcome hc

/-! ### Arms -/

/-- The check of several patterns reports no symbols. -/
theorem allSymbols_validateAll (arms : List (TuplePattern Pattern)) :
    AllSymbols P (validateAll arms) := by
  induction arms with
  | nil => exact allSymbols_ok.mpr allSymbols_unit
  | cons p arms ih => exact allSymbols_bind p.allSymbols_validate fun _ _ => ih

/-- The arms that are tried in turn bring in symbols of the arms and of the tuple. -/
theorem allSymbols_tryArms {t : Tuple Value} (ht : AllSymbols P t) (i : Nat)
    {arms : List (TuplePattern Pattern)} (harms : AllSymbols P arms) (hc : c.Valid) :
    AllSymbols P (tryArms t i arms c).1 ∧ (tryArms t i arms c).2.Valid := by
  induction arms generalizing i c with
  | nil => exact ⟨allSymbols_ok.mpr allSymbols_none, hc⟩
  | cons p arms ih =>
      obtain ⟨hp, harms⟩ := allSymbols_cons.mp harms
      obtain ⟨houtcome, hc⟩ := (carries_matchInto hp ht).outcome hc
      rw [tryArms]
      generalize (p.matchInto t).outcome c = result at houtcome hc ⊢
      obtain ⟨ended, c'⟩ := result
      cases ended with
      | error e => exact ⟨houtcome, hc⟩
      | ok outcome =>
          cases outcome with
          | matched bindings => exact ⟨houtcome, hc⟩
          | failed failure => exact ih (i + 1) harms hc

/-- The outcome of a list of arms holds symbols of the arms and of the tuple. -/
theorem allSymbols_matchArms {arms : List (TuplePattern Pattern)} (harms : AllSymbols P arms)
    {t : Tuple Value} (ht : AllSymbols P t) (hc : c.Valid) :
    AllSymbols P (matchArms arms t c).1 ∧ (matchArms arms t c).2.Valid := by
  have herror := allSymbols_validateAll (P := P) arms
  unfold matchArms
  generalize validateAll arms = verdict at herror ⊢
  cases verdict with
  | error e => exact ⟨herror, hc⟩
  | ok _ => exact allSymbols_tryArms ht 0 harms hc

/-! ### Matches against a layout -/

/-- A name that is bound to a place brings in itself and the symbols of the place. -/
theorem allSymbols_bindSlot {name : Option Symbol} (hname : AllSymbols P name)
    {place : Option SlotBinding} (hplace : AllSymbols P place) :
    AllSymbols P (bindSlot name place) := by
  cases name with
  | none => exact allSymbols_nil
  | some name =>
      cases place with
      | none => exact allSymbols_nil
      | some place =>
          rw [allSymbols_some] at hname hplace
          exact allSymbols_cons.mpr ⟨allSymbols_pair.mpr ⟨hname, hplace⟩, allSymbols_nil⟩

/-- The name that a pattern is bound to is a symbol of the pattern. -/
theorem allSymbols_boundName? {p : Pattern} (hp : AllSymbols P p) :
    AllSymbols P p.boundName? := by
  cases p with
  | bind name => exact allSymbols_some.mpr (allSymbols_symbol.mpr (Pattern.allSymbols_bind.mp hp))
  | _ => exact allSymbols_none

/-- The places of the positional parts hold symbols of the parts. -/
theorem allSymbols_placePositional (alignment : Alignment) (i : Nat)
    {parts : List (PositionalPattern Pattern)} (hparts : AllSymbols P parts) :
    AllSymbols P (placePositional alignment i parts) := by
  induction parts generalizing i with
  | nil => exact allSymbols_nil
  | cons part parts ih =>
      obtain ⟨hpart, htail⟩ := allSymbols_cons.mp hparts
      cases part with
      | rest name =>
          refine allSymbols_append.mpr ⟨allSymbols_bindSlot hpart ?_, ih (i + 1) htail⟩
          exact allSymbols_some.mpr allSymbols_positionalRest
      | sub p =>
          refine allSymbols_append.mpr ⟨allSymbols_bindSlot (allSymbols_boundName? hpart) ?_,
            ih (i + 1) htail⟩
          cases alignment.valueIndex? i with
          | none => exact allSymbols_none
          | some j => exact allSymbols_some.mpr allSymbols_slot

/-- The places of the parts for fields hold symbols of the parts. -/
theorem allSymbols_placeFields (l : Layout) {parts : List (Symbol × FieldPattern Pattern)}
    (hparts : AllSymbols P parts) : AllSymbols P (placeFields l parts) := by
  induction parts with
  | nil => exact allSymbols_ok.mpr allSymbols_nil
  | cons part parts ih =>
      obtain ⟨key, part⟩ := part
      obtain ⟨hpart, hparts⟩ := allSymbols_cons.mp hparts
      obtain ⟨hkey, hpart⟩ := allSymbols_pair.mp hpart
      have hrest := ih hparts
      rw [placeFields]
      cases l.slotOf? key with
      | none => exact allSymbols_error.mpr (allSymbols_failure_missingField.mpr
          (allSymbols_symbol.mp hkey))
      | some slot =>
          have hname : AllSymbols P (fieldName? key part) := by
            cases part with
            | shorthand => exact allSymbols_some.mpr hkey
            | sub p => exact allSymbols_boundName? hpart
          have hbound : AllSymbols P (bindSlot (fieldName? key part) (some (.slot slot))) :=
            allSymbols_bindSlot hname (allSymbols_some.mpr allSymbols_slot)
          dsimp only
          generalize placeFields l parts = places at hrest ⊢
          cases places with
          | error failure => exact hrest
          | ok places => exact allSymbols_ok.mpr (allSymbols_append.mpr ⟨hbound, hrest⟩)

/-- The places of a tuple pattern hold symbols of the pattern and of the layout. -/
theorem allSymbols_place {p : TuplePattern Pattern} (hp : AllSymbols P p) {l : Layout}
    (hl : AllSymbols P l) : AllSymbols P (p.place l) := by
  obtain ⟨htag, hpositional, hfields, hrest⟩ := allSymbols_tuplePattern_iff.mp hp
  obtain ⟨hlayoutTag, -⟩ := allSymbols_layout_iff.mp hl
  unfold place
  refine allSymbols_bind (allSymbols_checkTag htag hlayoutTag) fun _ _ => ?_
  refine allSymbols_bind (p.allSymbols_align l.positional) fun alignment _ => ?_
  refine allSymbols_bind (allSymbols_placeFields l hfields) fun fields hfields => ?_
  have hnamed : AllSymbols P (some (SlotBinding.namedRest (p.unmentioned l))) :=
    allSymbols_some.mpr (allSymbols_namedRest.mpr (p.allSymbols_unmentioned hl))
  exact allSymbols_ok.mpr (allSymbols_append.mpr ⟨allSymbols_append.mpr
    ⟨allSymbols_placePositional alignment 0 hpositional, hfields⟩,
    allSymbols_bindSlot hrest hnamed⟩)

/-- The outcome of a match of a layout holds symbols of the pattern and of the layout. -/
theorem allSymbols_matchLayout {p : TuplePattern Pattern} (hp : AllSymbols P p) {l : Layout}
    (hl : AllSymbols P l) : AllSymbols P (p.matchLayout l) := by
  have herror : AllSymbols P p.validate := p.allSymbols_validate
  have hplaces := allSymbols_place hp hl
  unfold matchLayout
  generalize p.validate = verdict at herror ⊢
  cases verdict with
  | error e => exact herror
  | ok _ =>
      generalize p.place l = places at hplaces ⊢
      cases places with
      | error failure => exact hplaces
      | ok bound => exact Bindings.allSymbols_ofList hplaces

end TuplePattern

end TaggedTuple
