import TaggedTuple.Proofs.Pattern.Places

/-!
# Matching a layout agrees with matching its tuples

A layout that is not matched has a condition of the outer shape that its tuples violate, too
(`place_cases`); for a flat pattern these are all the conditions there are (`Flat.place_cases`).
Where the layout is matched, what a match of a tuple binds is in step with the places
(`keepsStep_matchInto`). The agreement reads both off for the bindings that are handed out, in which
a name that is bound again keeps its place.
-/

namespace TaggedTuple

namespace TuplePattern

variable {t : Tuple Value}

/-! ### How a layout is matched -/

/-- A layout has no slot for the fields the tuple does not have. -/
theorem slotOf?_eq_none_iff (hwf : t.WellFormed) {f : Symbol} :
    t.layout.slotOf? f = none ↔ t.field? f = none := by
  rw [hwf.field?_eq_none_iff, Layout.slotOf?_eq_none_iff]

/-- Either all fields that are mentioned have slots, or the first one that has none is missing. -/
theorem placeFields_cases (hwf : t.WellFormed) (parts : List (Symbol × FieldPattern Pattern)) :
    ((∀ x ∈ parts, (t.field? x.1).isSome = true) ∧
      ∃ places, placeFields t.layout parts = .ok places) ∨
    ∃ done key part later, parts = done ++ (key, part) :: later ∧
      (∀ x ∈ done, (t.field? x.1).isSome = true) ∧ t.field? key = none ∧
      placeFields t.layout parts = .error (.missingField key) := by
  induction parts with
  | nil => exact .inl ⟨fun x hx => absurd hx List.not_mem_nil, [], rfl⟩
  | cons x parts ih =>
      obtain ⟨key, part⟩ := x
      rw [placeFields]
      cases hslot : t.layout.slotOf? key with
      | none =>
          have hmissing := (slotOf?_eq_none_iff hwf).mp hslot
          exact .inr ⟨[], key, part, parts, rfl, fun x hx => absurd hx List.not_mem_nil, hmissing,
            rfl⟩
      | some i =>
          have hpresent : (t.field? key).isSome = true := by
            rw [Option.isSome_iff_ne_none]
            intro hnone
            rw [(slotOf?_eq_none_iff hwf).mpr hnone] at hslot
            cases hslot
          rcases ih with ⟨hall, more, hmore⟩ | ⟨done, key', part', later, rfl, hdone, hnone, herror⟩
          · refine .inl ⟨List.forall_mem_cons.mpr ⟨hpresent, hall⟩,
              bindSlot (fieldName? key part) (some (.slot i)) ++ more, ?_⟩
            simp only [hmore, Except.map]
          · refine .inr ⟨(key, part) :: done, key', part', later, rfl,
              List.forall_mem_cons.mpr ⟨hpresent, hdone⟩, hnone, ?_⟩
            simp only [herror, Except.map]

section place

variable {p : TuplePattern Pattern} (hp : p.SingleRest) (hwf : t.WellFormed)
include hp hwf

/-- The outcomes of matching a layout: the tag is not acceptable, the count does not fit, a field is
missing, or all names have places. -/
theorem place_cases :
    (∃ requirement wanted, p.tag = some requirement ∧ requirement.Takes wanted ∧
      ¬requirement.Takes t.tag ∧ p.place t.layout = .error (.tagMismatch wanted t.tag)) ∨
    (p.TagFits t.tag ∧ ¬p.CountFits t.arity ∧
      p.place t.layout = .error (.arityMismatch p.fixedCount t.arity p.hasRest)) ∨
    (p.TagFits t.tag ∧ p.CountFits t.arity ∧ ∃ done key part later,
      p.fields = done ++ (key, part) :: later ∧ (∀ x ∈ done, (t.field? x.1).isSome = true) ∧
      t.field? key = none ∧ p.place t.layout = .error (.missingField key)) ∨
    (p.TagFits t.tag ∧ p.CountFits t.arity ∧ (∀ x ∈ p.fields, (t.field? x.1).isSome = true) ∧
      ∃ fields, placeFields t.layout p.fields = .ok fields ∧
        p.place t.layout = .ok (placePositional (p.alignment t.arity) 0 p.positional ++ fields
          ++ bindSlot p.namedRest (some (.namedRest (p.unmentioned t.layout))))) := by
  unfold place
  by_cases htag : p.TagFits t.tag
  swap
  · obtain ⟨requirement, wanted, hrequired, hwanted, hrejects⟩ := exists_of_not_tagFits htag
    refine .inl ⟨requirement, wanted, hrequired, hwanted, hrejects, ?_⟩
    have hcheck := checkTag_of_not_takes hrequired hwanted hrejects
    show (do p.checkTag t.tag; _ : Except MatchFailure _) = _
    rw [hcheck]
    rfl
  have hcheck : p.checkTag t.layout.tag = .ok () := checkTag_of_tagFits htag
  rw [hcheck]
  by_cases hcount : p.CountFits t.arity
  swap
  · have halign : p.align t.layout.positional = _ := align_of_not_countFits hp hcount
    refine .inr (.inl ⟨htag, hcount, ?_⟩)
    rw [halign]
    rfl
  have halign : p.align t.layout.positional = _ := align_of_countFits hp hcount
  rw [halign]
  rcases placeFields_cases hwf p.fields with
    ⟨hall, fields, hfields⟩ | ⟨done, key, part, later, hparts, hdone, hnone, herror⟩
  · refine .inr (.inr (.inr ⟨htag, hcount, hall, fields, hfields, ?_⟩))
    rw [hfields]
    rfl
  · refine .inr (.inr (.inl ⟨htag, hcount, done, key, part, later, hparts, hdone, hnone, ?_⟩))
    rw [herror]
    rfl

end place

/-! ### The match of the tuple keeps step -/

/-- The capture of the fields that are left keeps step with its place. -/
theorem keepsStep_matchNamedRest {nested : Prop} (ht : (Value.tuple t).WellFormed)
    (p : TuplePattern Pattern) :
    (matchNamedRest .tuple (p.map Pattern.matchInto) t).KeepsStep t nested
      (bindSlot p.namedRest (some (.namedRest (p.unmentioned t.layout)))) := by
  have hname : (p.map Pattern.matchInto).namedRest = p.namedRest := rfl
  unfold matchNamedRest
  rw [unmentioned_map, hname]
  cases p.namedRest with
  | none => exact Matching.keepsStep_nothing
  | some name => exact keepsStep_projectNamed ht name _

section keepsStep

variable {p : TuplePattern Pattern} (hp : p.validate = .ok ()) (ht : (Value.tuple t).WellFormed)
include hp ht

/-- Where the layout is matched, what the match of the tuple binds is in step with the places. -/
theorem keepsStep_matchInto {places : List (Symbol × SlotBinding)}
    (h : p.place t.layout = .ok places) : (p.matchInto t).KeepsStep t (¬p.Flat) places := by
  have hwf := (Value.wellFormed_tuple_iff.mp ht).1
  obtain ⟨hrest, hpositional, hfields⟩ := validate_eq_ok_iff.mp hp
  rcases place_cases hrest hwf with ⟨requirement, wanted, -, -, -, herror⟩ | ⟨-, -, herror⟩ |
    ⟨-, -, done, key, part, later, -, -, -, herror⟩ | ⟨htag, hcount, -, fields, hplaces, hok⟩
  · cases herror.symm.trans h
  · cases herror.symm.trans h
  · cases herror.symm.trans h
  · cases hok.symm.trans h
    unfold matchInto matchParts
    rw [checkTag_of_tagFits ((tagFits_map _ p).mpr htag),
      align_of_countFits ((singleRest_map _ p).mpr hrest) ((countFits_map _ p).mpr hcount),
      alignment_map, List.append_assoc]
    refine Matching.KeepsStep.followedBy ?_ (Matching.KeepsStep.followedBy ?_ ?_)
    · refine keepsStep_matchPositional ht 0 (fun q hq => ⟨?_, hpositional q hq⟩) ?_
      · by_cases hflat : p.Flat
        · exact .inl (hflat.positional q hq)
        · exact .inr hflat
      · intro k hk j hj
        rw [Nat.zero_add] at hj
        exact hrest.valueIndex?_lt hcount hk hj
    · refine keepsStep_matchFields ht (fun key q hq => ⟨?_, hfields key q hq⟩) hplaces
      by_cases hflat : p.Flat
      · exact .inl (hflat.fields key q hq)
      · exact .inr hflat
    · exact keepsStep_matchNamedRest ht p

end keepsStep

/-! ### Failures -/

section failures

open Pattern (Fits FirstViolation)

variable {p : TuplePattern Pattern} (hp : p.SingleRest) (hwf : t.WellFormed)
include hp hwf

/-- A tuple that fits the pattern has a layout that is matched. -/
theorem exists_place_of_fits (h : Fits (.tuple p) (.tuple t)) :
    ∃ places, p.place t.layout = .ok places := by
  cases h with
  | tuple htag hcount _ hpresent _ => ?_
  rcases place_cases hp hwf with ⟨requirement, wanted, hrequired, -, hrejects, -⟩ |
    ⟨-, hmisfit, -⟩ | ⟨-, -, done, key, part, later, hparts, -, hnone, -⟩ |
    ⟨-, -, -, fields, -, hok⟩
  · exact absurd (htag requirement hrequired) hrejects
  · exact absurd hcount hmisfit
  · have hmem : (key, part) ∈ p.fields := by
      rw [hparts]
      exact List.mem_append_right _ List.mem_cons_self
    have hsome := hpresent key part hmem
    rw [hnone] at hsome
    cases hsome
  · exact ⟨_, hok⟩

omit hp hwf in
/-- Any value fits a binder or a wildcard. -/
theorem simple_fits {q : Pattern} (h : q.Simple) (v : Value) : Fits q v := by
  rcases h with rfl | ⟨name, rfl⟩
  · exact .wildcard v
  · exact .bind name v

omit hp hwf in
/-- Positional members fit a flat pattern if the tag and their number do. -/
theorem Flat.positionalFit (h : p.Flat) (htag : p.TagFits t.tag) (hcount : p.CountFits t.arity) :
    Pattern.PositionalFit p t :=
  ⟨htag, hcount, fun x hx => simple_fits (h.positional x.1 (mem_of_mem_aligned hx).1) x.2⟩

omit hp hwf in
/-- A field fits a flat pattern if the tuple has it. -/
theorem Flat.fieldFits (h : p.Flat) {x : Symbol × FieldPattern Pattern} (hx : x ∈ p.fields)
    (hsome : (t.field? x.1).isSome = true) : Pattern.FieldFits t x := by
  obtain ⟨key, part⟩ := x
  obtain ⟨v, hv⟩ := Option.isSome_iff_exists.mp hsome
  refine ⟨v, hv, fun q hq => ?_⟩
  cases hq
  exact simple_fits (h.fields key q hx) v

/-- With a flat pattern, the outcome on the layout decides the outcome on the tuple. -/
theorem Flat.place_cases (h : p.Flat) :
    (∃ failure, p.place t.layout = .error failure ∧
      FirstViolation (.tuple p) (.tuple t) failure) ∨
    ((∃ places, p.place t.layout = .ok places) ∧ Fits (.tuple p) (.tuple t)) := by
  rcases TuplePattern.place_cases hp hwf with
    ⟨requirement, wanted, hrequired, hwanted, hrejects, herror⟩ | ⟨htag, hmisfit, herror⟩ |
    ⟨htag, hcount, done, key, part, later, hparts, hdone, hnone, herror⟩ |
    ⟨htag, hcount, hall, fields, -, hok⟩
  · exact .inl ⟨_, herror, .tag hrequired hwanted hrejects⟩
  · exact .inl ⟨_, herror, .count htag hmisfit⟩
  · refine .inl ⟨_, herror, .missingField (h.positionalFit htag hcount) hparts ?_ hnone⟩
    intro x hx
    exact h.fieldFits (hparts ▸ List.mem_append_left _ hx) (hdone x hx)
  · refine .inr ⟨⟨_, hok⟩, Pattern.fits_tuple_of_forall (h.positionalFit htag hcount) ?_⟩
    intro x hx
    exact h.fieldFits hx (hall x hx)

end failures

/-! ### Outcomes -/

section outcome

variable {p : TuplePattern Pattern} (hp : p.validate = .ok ())
include hp

/-- A layout fails the match as the placement of the pattern does. -/
theorem matchLayout_eq_failed_iff {failure : MatchFailure} :
    p.matchLayout t.layout = .ok (.failed failure) ↔ p.place t.layout = .error failure := by
  unfold matchLayout
  rw [hp]
  cases p.place t.layout <;> simp

/-- A layout matches with the places found for the pattern. -/
theorem matchLayout_eq_matched_iff {places : Bindings SlotBinding} :
    p.matchLayout t.layout = .ok (.matched places) ↔
      ∃ bound, p.place t.layout = .ok bound ∧ places = .ofList bound := by
  unfold matchLayout
  rw [hp]
  cases p.place t.layout <;> simp [eq_comm]

/-- A match of a tuple comes from a run that binds in order. -/
theorem exists_of_matchTuple_matched {cache : LayoutCache} {bindings : Bindings Value}
    (h : (p.matchTuple t cache).1 = .ok (.matched bindings)) :
    ∃ bound cache', p.matchInto t cache = (.ok bound, cache') ∧ bindings = .ofList bound := by
  rw [matchTuple_of_valid hp] at h
  exact Matching.exists_of_outcome_matched h

variable (ht : (Value.tuple t).WellFormed) {cache : LayoutCache} (hc : cache.Valid)
include ht hc

/-- Where both match, the two lists of bindings come from lists that are in step. -/
theorem exists_inStep_of_matched {places : Bindings SlotBinding} {bindings : Bindings Value}
    (hlayout : p.matchLayout t.layout = .ok (.matched places))
    (htuple : (p.matchTuple t cache).1 = .ok (.matched bindings)) :
    ∃ placed bound, places = .ofList placed ∧ bindings = .ofList bound ∧
      bound.map Prod.fst = (Pattern.tuple p).boundNames ∧
      InStep (fun place v => place.Resolves t v) (¬p.Flat) placed bound := by
  obtain ⟨placed, hplaced, rfl⟩ := (matchLayout_eq_matched_iff hp).mp hlayout
  obtain ⟨bound, cache', hbound, rfl⟩ := exists_of_matchTuple_matched hp htuple
  have hnames : (p.matchInto t).BindsNames (Pattern.tuple p).boundNames := by
    have hvalid : (Pattern.tuple p).validate = .ok () := (Pattern.validate_tuple_eq p).trans hp
    have h := (Pattern.tuple p).bindsNames_matchInto hvalid ht
    rwa [Pattern.matchInto_tuple] at h
  refine ⟨placed, bound, rfl, rfl, (hnames cache bound cache' hc hbound).1, ?_⟩
  exact (keepsStep_matchInto hp ht hplaced cache bound cache' hc hbound).1

/-- Matching a layout agrees with matching a tuple that has it. Where the layout does not match, the
tuple does not. A flat pattern has one outcome on both, and on success the same names in the same
order. A pattern that binds no name twice has, where both match, a value for each name that has a
place. In both cases the place gives the value. -/
theorem matchLayout_agrees_with_matchTuple :
    (∀ failure, p.matchLayout t.layout = .ok (.failed failure) →
      ∃ failure', (p.matchTuple t cache).1 = .ok (.failed failure')) ∧
    (p.Flat →
      (∃ failure, p.matchLayout t.layout = .ok (.failed failure) ∧
        (p.matchTuple t cache).1 = .ok (.failed failure)) ∨
      ∃ places bindings, p.matchLayout t.layout = .ok (.matched places) ∧
        (p.matchTuple t cache).1 = .ok (.matched bindings) ∧
        List.Forall₂ (fun x y => x.1 = y.1 ∧ x.2.Resolves t y.2)
          places.entries bindings.entries) ∧
    ((Pattern.tuple p).boundNames.Nodup → ∀ places bindings,
      p.matchLayout t.layout = .ok (.matched places) →
      (p.matchTuple t cache).1 = .ok (.matched bindings) →
      ∀ name place, places.get? name = some place →
        ∃ v, bindings.get? name = some v ∧ place.Resolves t v) := by
  have hwf := (Value.wellFormed_tuple_iff.mp ht).1
  have hrest := (validate_eq_ok_iff.mp hp).1
  have hvalid : (Pattern.tuple p).validate = .ok () := (Pattern.validate_tuple_eq p).trans hp
  obtain ⟨hmatched, hfailed⟩ := Pattern.outcome_semantics hvalid ht hc
  rw [← matchTuple_eq_outcome hp cache] at hmatched hfailed
  refine ⟨fun failure hlayout => ?_, fun hflat => ?_, ?_⟩
  · rcases Pattern.fits_or_firstViolation (.tuple p) (.tuple t) with hfits | ⟨failure', hviolation⟩
    · obtain ⟨places, hplaces⟩ := exists_place_of_fits hrest hwf hfits
      rw [matchLayout_eq_failed_iff hp, hplaces] at hlayout
      cases hlayout
    · exact ⟨failure', (hfailed failure').mpr hviolation⟩
  · rcases hflat.place_cases hrest hwf with ⟨failure, herror, hviolation⟩ | ⟨⟨places, hok⟩, hfits⟩
    · exact .inl ⟨failure, (matchLayout_eq_failed_iff hp).mpr herror,
        (hfailed failure).mpr hviolation⟩
    · obtain ⟨bindings, htuple⟩ := hmatched.mpr hfits
      have hlayout := (matchLayout_eq_matched_iff hp).mpr ⟨places, hok, rfl⟩
      refine .inr ⟨.ofList places, bindings, hlayout, htuple, ?_⟩
      obtain ⟨placed, bound, hplaced, rfl, -, hstep⟩ :=
        exists_inStep_of_matched hp ht hc hlayout htuple
      have hforall := hstep.forall₂ fun hnested => hnested hflat
      rw [hplaced]
      exact Bindings.ofList_rel (r := fun (place : SlotBinding) v => place.Resolves t v) hforall
  · intro hnodup places bindings hlayout htuple name place hplace
    obtain ⟨placed, bound, rfl, rfl, hnames, hstep⟩ :=
      exists_inStep_of_matched hp ht hc hlayout htuple
    rw [← hnames] at hnodup
    have hnodup' := hnodup.sublist hstep.sublist
    obtain ⟨v, hv, hresolves⟩ :=
      hstep.exists_of_mem ((Bindings.get?_ofList_eq_some_iff hnodup').mp hplace)
    exact ⟨v, (Bindings.get?_ofList_eq_some_iff hnodup).mpr hv, hresolves⟩

end outcome

/-- The pattern `((5), ...6, 1:, ...7)` on a tuple with three positional members and two fields: the
name inside the nested pattern has no place, the others have. -/
theorem matchLayout_agrees_with_matchTuple_of_nested_pattern :
    let inner : TuplePattern Pattern := { positional := [.sub (.bind ⟨5⟩)] }
    let p : TuplePattern Pattern :=
      { positional := [.sub (.tuple inner), .rest (some ⟨6⟩)], fields := [(⟨1⟩, .shorthand)],
        namedRest := some ⟨7⟩ }
    let t : Tuple Value :=
      ⟨⟨0, 0, .descendingPair 3⟩,
        [.tuple ⟨⟨0, 1, .ofPositional 1⟩, [.int 9], []⟩, .int 8, .int 7], [.str "y", .str "x"]⟩
    ∃ places bindings, p.matchLayout t.layout = .ok (.matched places) ∧
      (p.matchTuple t (.empty 0 true)).1 = .ok (.matched bindings) ∧
      (∃ v, bindings.get? ⟨6⟩ = some v ∧ (SlotBinding.positionalRest 1 3).Resolves t v) ∧
      (∃ v, bindings.get? ⟨1⟩ = some v ∧ (SlotBinding.slot 4).Resolves t v) ∧
      ∃ v, bindings.get? ⟨7⟩ = some v ∧ (SlotBinding.namedRest [⟨2⟩]).Resolves t v := by
  intro inner p t
  have ht : (Value.tuple t).WellFormed := by
    simp [t, Value.wellFormed_tuple_iff, Value.WellFormed.int, Value.WellFormed.str, Tuple.members,
      Tuple.wellFormed_iff, Tuple.layout, Layout.descendingPair, Layout.ofPositional]
  have hp : p.validate = .ok () := by rfl
  have hnodup : (Pattern.tuple p).boundNames.Nodup := by decide
  let places : Bindings SlotBinding :=
    ⟨[(⟨6⟩, .positionalRest 1 3), (⟨1⟩, .slot 4), (⟨7⟩, .namedRest [⟨2⟩])]⟩
  have hlayout : p.matchLayout t.layout = .ok (.matched places) := by with_unfolding_all rfl
  obtain ⟨bindings, htuple⟩ : ∃ bindings,
      (p.matchTuple t (.empty 0 true)).1 = .ok (.matched bindings) :=
    ⟨_, by with_unfolding_all rfl⟩
  have hresolves := (matchLayout_agrees_with_matchTuple hp ht
    (LayoutCache.valid_empty 0 true)).2.2 hnodup places bindings hlayout htuple
  refine ⟨places, bindings, hlayout, htuple, ?_, ?_, ?_⟩
  · exact hresolves ⟨6⟩ _ rfl
  · exact hresolves ⟨1⟩ _ rfl
  · exact hresolves ⟨7⟩ _ rfl

end TuplePattern

end TaggedTuple
