import TaggedTuple.Proofs.Pattern.Sequence
import TaggedTuple.Proofs.Pattern.Validity
import TaggedTuple.Proofs.Value.Equality

/-!
# What it means that a value fits a pattern

`Pattern.Fits` says when a value fits a pattern, `Pattern.FirstViolation` which condition is the
first one, depth first, that does not hold. Neither mentions caches, bindings or positions. The
matcher computes both (`TuplePattern.matchTuple_semantics`): a valid pattern matches the values that
fit it and fails with the first violation on all others.

The proof is one lemma for each direction, by induction on the derivations (`Fits.succeeds`,
`FirstViolation.failsWith`), and that there is a derivation in each case, by induction on the
pattern (`fits_or_firstViolation`).
-/

namespace TaggedTuple

namespace Literal

/-- The value that a literal stands for. -/
def toValue : Literal → Value
  | .int n => .int n
  | .str s => .str s

/-- A literal accepts the values equal to its own. -/
theorem accepts_eq_beq (l : Literal) (v : Value) : l.accepts v = (l.toValue == v) := by
  cases l <;> rfl

end Literal

namespace Pattern

/-- A value fits a pattern. A tuple fits a tuple pattern when the tag is acceptable, the number of
positional members fits, the aligned members fit the positional sub-patterns, and each field that is
mentioned is there and has a value that fits. -/
inductive Fits : Pattern → Value → Prop
  | wildcard (v : Value) : Fits .wildcard v
  | bind (name : Symbol) (v : Value) : Fits (.bind name) v
  | literal {l : Literal} {v : Value} (equal : (l.toValue == v) = true) : Fits (.literal l) v
  | tuple {p : TuplePattern Pattern} {t : Tuple Value} (tag : p.TagFits t.tag)
    (count : p.CountFits t.arity)
    (positional : ∀ q v, (q, v) ∈ p.aligned t.positional → Fits q v)
    (present : ∀ key part, (key, part) ∈ p.fields → (t.field? key).isSome = true)
    (fields : ∀ key q v, (key, .sub q) ∈ p.fields → t.field? key = some v → Fits q v) :
    Fits (.tuple p) (.tuple t)

/-- All positional members of a tuple fit, those that are left to the rest marker in any case. -/
def PositionalFit (p : TuplePattern Pattern) (t : Tuple Value) : Prop :=
  p.TagFits t.tag ∧ p.CountFits t.arity ∧ ∀ x ∈ p.aligned t.positional, Fits x.1 x.2

/-- The field that a part mentions is there, and its value fits. -/
def FieldFits (t : Tuple Value) (x : Symbol × FieldPattern Pattern) : Prop :=
  ∃ v, t.field? x.1 = some v ∧ ∀ q, x.2 = .sub q → Fits q v

/-- The failure of the first condition, depth first, that does not hold: the tag, the number of
positional members, the positional sub-patterns from left to right, the parts for fields in
order. -/
inductive FirstViolation : Pattern → Value → MatchFailure → Prop
  | literal {l : Literal} {v : Value} (unequal : (l.toValue == v) = false) :
    FirstViolation (.literal l) v .literalMismatch
  | notATuple {p : TuplePattern Pattern} {v : Value} (none : v.tuple? = none) :
    FirstViolation (.tuple p) v .notATuple
  | tag {p : TuplePattern Pattern} {t : Tuple Value} {requirement : TagRequirement}
    {wanted : Option Symbol} (required : p.tag = some requirement)
    (wants : requirement.Takes wanted) (rejects : ¬requirement.Takes t.tag) :
    FirstViolation (.tuple p) (.tuple t) (.tagMismatch wanted t.tag)
  | count {p : TuplePattern Pattern} {t : Tuple Value} (tag : p.TagFits t.tag)
    (misfit : ¬p.CountFits t.arity) :
    FirstViolation (.tuple p) (.tuple t) (.arityMismatch p.fixedCount t.arity p.hasRest)
  | positional {p : TuplePattern Pattern} {t : Tuple Value} {done later : List (Pattern × Value)}
    {q : Pattern} {v : Value} {failure : MatchFailure} (tag : p.TagFits t.tag)
    (count : p.CountFits t.arity) (aligned : p.aligned t.positional = done ++ (q, v) :: later)
    (before : ∀ x ∈ done, Fits x.1 x.2) (sub : FirstViolation q v failure) :
    FirstViolation (.tuple p) (.tuple t) failure
  | missingField {p : TuplePattern Pattern} {t : Tuple Value}
    {done later : List (Symbol × FieldPattern Pattern)} {key : Symbol} {part : FieldPattern Pattern}
    (positional : PositionalFit p t) (fields : p.fields = done ++ (key, part) :: later)
    (before : ∀ x ∈ done, FieldFits t x) (missing : t.field? key = none) :
    FirstViolation (.tuple p) (.tuple t) (.missingField key)
  | field {p : TuplePattern Pattern} {t : Tuple Value}
    {done later : List (Symbol × FieldPattern Pattern)} {key : Symbol} {q : Pattern} {v : Value}
    {failure : MatchFailure} (positional : PositionalFit p t)
    (fields : p.fields = done ++ (key, .sub q) :: later) (before : ∀ x ∈ done, FieldFits t x)
    (found : t.field? key = some v) (sub : FirstViolation q v failure) :
    FirstViolation (.tuple p) (.tuple t) failure

/-! ### The semantics is total -/

/-- A tuple fits when its positional members and all the fields asked for do. -/
theorem fits_tuple_of_forall {p : TuplePattern Pattern} {t : Tuple Value} (h : PositionalFit p t)
    (hfields : ∀ x ∈ p.fields, FieldFits t x) : Fits (.tuple p) (.tuple t) := by
  obtain ⟨htag, hcount, hpositional⟩ := h
  refine .tuple htag hcount (fun q v => hpositional (q, v)) (fun key part hmem => ?_)
    fun key q v hmem hv => ?_
  · obtain ⟨v, hv, -⟩ := hfields (key, part) hmem
    rw [hv]
    rfl
  · obtain ⟨v', hv', hfits⟩ := hfields (key, .sub q) hmem
    rw [Option.some.inj (hv.symm.trans hv')]
    exact hfits q rfl

/-- What it is for a tuple to fit a tuple pattern. -/
theorem fits_tuple_iff {p : TuplePattern Pattern} {t : Tuple Value} :
    Fits (.tuple p) (.tuple t) ↔ PositionalFit p t ∧ ∀ x ∈ p.fields, FieldFits t x := by
  refine ⟨?_, fun ⟨h, hfields⟩ => fits_tuple_of_forall h hfields⟩
  rintro (_ | _ | _ | ⟨tag, count, positional, present, fields⟩)
  refine ⟨⟨tag, count, fun x hx => positional x.1 x.2 hx⟩, fun x hx => ?_⟩
  obtain ⟨key, part⟩ := x
  obtain ⟨v, hv⟩ := Option.isSome_iff_exists.mp (present key part hx)
  exact ⟨v, hv, fun q hq => fields key q v (hq ▸ hx) hv⟩

/-- A tuple fits a tuple pattern, or some condition is the first one that does not hold, if that is
so of the sub-patterns. -/
theorem fits_or_firstViolation_tuple {p : TuplePattern Pattern} (t : Tuple Value)
    (hpositional : ∀ q, .sub q ∈ p.positional → ∀ v, Fits q v ∨ ∃ f, FirstViolation q v f)
    (hfields : ∀ key q, (key, .sub q) ∈ p.fields → ∀ v, Fits q v ∨ ∃ f, FirstViolation q v f) :
    Fits (.tuple p) (.tuple t) ∨ ∃ failure, FirstViolation (.tuple p) (.tuple t) failure := by
  by_cases htag : p.TagFits t.tag
  swap
  · obtain ⟨requirement, wanted, hrequired, hwanted, hrejects⟩ :=
      TuplePattern.exists_of_not_tagFits htag
    exact .inr ⟨_, .tag hrequired hwanted hrejects⟩
  by_cases hcount : p.CountFits t.arity
  swap
  · exact .inr ⟨_, .count htag hcount⟩
  rcases forall_or_exists_first (fun x => Fits x.1 x.2) (p.aligned t.positional) with
    hall | ⟨done, ⟨q, v⟩, later, haligned, hdone, hmisfit⟩
  swap
  · have hmem : (q, v) ∈ p.aligned t.positional := by
      rw [haligned]
      exact List.mem_append_right _ List.mem_cons_self
    obtain ⟨failure, hsub⟩ :=
      (hpositional q (TuplePattern.mem_of_mem_aligned hmem).1 v).resolve_left hmisfit
    exact .inr ⟨failure, .positional htag hcount haligned hdone hsub⟩
  have hfit : PositionalFit p t := ⟨htag, hcount, hall⟩
  rcases forall_or_exists_first (FieldFits t) p.fields with
    hall | ⟨done, ⟨key, part⟩, later, hparts, hdone, hmisfit⟩
  · exact .inl (fits_tuple_of_forall hfit hall)
  · cases hv : t.field? key with
    | none => exact .inr ⟨_, .missingField hfit hparts hdone hv⟩
    | some v =>
        cases part with
        | shorthand => exact absurd ⟨v, hv, nofun⟩ hmisfit
        | sub q =>
            have hmem : (key, .sub q) ∈ p.fields := by
              rw [hparts]
              exact List.mem_append_right _ List.mem_cons_self
            have hq : ¬Fits q v := fun hq => hmisfit ⟨v, hv, fun q' heq => by cases heq; exact hq⟩
            obtain ⟨failure, hsub⟩ := (hfields key q hmem v).resolve_left hq
            exact .inr ⟨failure, .field hfit hparts hdone hv hsub⟩

/-- A value fits a pattern, or some condition is the first one that does not hold. -/
theorem fits_or_firstViolation (p : Pattern) (v : Value) :
    Fits p v ∨ ∃ failure, FirstViolation p v failure := by
  induction p using Pattern.induction generalizing v with
  | wildcard => exact .inl (.wildcard v)
  | bind name => exact .inl (.bind name v)
  | literal l =>
      cases h : l.toValue == v with
      | true => exact .inl (.literal h)
      | false => exact .inr ⟨_, .literal h⟩
  | tuple p ihPositional ihFields =>
      cases v with
      | int n => exact .inr ⟨_, .notATuple rfl⟩
      | str s => exact .inr ⟨_, .notATuple rfl⟩
      | tuple t => exact fits_or_firstViolation_tuple t ihPositional ihFields

/-! ### The matcher computes it -/

section valid

variable {p : TuplePattern Pattern} {t : Tuple Value} (hp : p.validate = .ok ())
  (ht : (Value.tuple t).WellFormed)
include hp ht

/-- The parts of a valid pattern and the members of a well-formed tuple are valid. -/
theorem valid_of_mem_aligned {x : Pattern × Value} (hx : x ∈ p.aligned t.positional) :
    x.1.validate = .ok () ∧ x.2.WellFormed := by
  obtain ⟨hsub, hvalue⟩ := TuplePattern.mem_of_mem_aligned hx
  exact ⟨(TuplePattern.validate_eq_ok_iff.mp hp).2.1 x.1 hsub, ht.of_mem_positional hvalue⟩

/-- The parts for fields of a valid pattern and the fields they meet are valid. -/
theorem valid_of_mem_fields {key : Symbol} {q : Pattern} {v : Value}
    (hq : (key, .sub q) ∈ p.fields) (hv : t.field? key = some v) :
    q.validate = .ok () ∧ v.WellFormed :=
  ⟨(TuplePattern.validate_eq_ok_iff.mp hp).2.2 key q hq, ht.of_field? hv⟩

end valid

/-- A value that fits a valid pattern is matched. -/
theorem Fits.succeeds {p : Pattern} {v : Value} (h : Fits p v) (hp : p.validate = .ok ())
    (hv : v.WellFormed) : (p.matchInto v).Succeeds := by
  induction h with
  | wildcard v => exact Matching.succeeds_nothing
  | bind name v => exact Matching.succeeds_bind name v
  | literal equal =>
      rw [matchInto, Literal.accepts_eq_beq, if_pos equal]
      exact Matching.succeeds_nothing
  | @tuple p t tag count _ present _ ihPositional ihFields =>
      rw [validate_tuple_eq] at hp
      have hrest := (TuplePattern.validate_eq_ok_iff.mp hp).1
      rw [matchInto_tuple]
      refine TuplePattern.succeeds_matchParts hrest (Value.wellFormed_tuple_iff.mp hv).1 tag count
        (fun x hx => ?_) fun x hx => ?_
      · obtain ⟨hvalid, hwf⟩ := valid_of_mem_aligned hp hv hx
        exact ihPositional x.1 x.2 hx hvalid hwf
      · obtain ⟨key, part⟩ := x
        obtain ⟨value, hvalue⟩ := Option.isSome_iff_exists.mp (present key part hx)
        refine ⟨value, hvalue, fun q hq => ?_⟩
        cases hq
        obtain ⟨hvalid, hwf⟩ := valid_of_mem_fields hp hv hx hvalue
        exact ihFields key q value hx hvalue hvalid hwf

/-- A part whose field fits succeeds. -/
theorem FieldFits.succeeds {p : TuplePattern Pattern} {t : Tuple Value} (hp : p.validate = .ok ())
    (ht : (Value.tuple t).WellFormed) {x : Symbol × FieldPattern Pattern} (hx : x ∈ p.fields)
    (h : FieldFits t x) : TuplePattern.FieldSucceeds matchInto t x := by
  obtain ⟨key, part⟩ := x
  obtain ⟨v, hv, hsub⟩ := h
  refine ⟨v, hv, fun q hq => ?_⟩
  cases hq
  obtain ⟨hvalid, hwf⟩ := valid_of_mem_fields hp ht hx hv
  exact (hsub q rfl).succeeds hvalid hwf

/-- When tag and positional members fit, the match goes on to the fields. -/
theorem PositionalFit.failsWith {p : TuplePattern Pattern} {t : Tuple Value}
    {failure : MatchFailure} (h : PositionalFit p t) (hp : p.validate = .ok ())
    (ht : (Value.tuple t).WellFormed)
    (hfields : (TuplePattern.matchFields t
      (p.fields.map fun x => (x.1, x.2.map matchInto))).FailsWith failure) :
    ((tuple p).matchInto (.tuple t)).FailsWith failure := by
  obtain ⟨htag, hcount, hpositional⟩ := h
  rw [matchInto_tuple]
  refine TuplePattern.failsWith_matchParts_of_fields (TuplePattern.validate_eq_ok_iff.mp hp).1
    (Value.wellFormed_tuple_iff.mp ht).1 htag hcount (fun x hx => ?_) hfields
  obtain ⟨hvalid, hwf⟩ := valid_of_mem_aligned hp ht hx
  exact (hpositional x hx).succeeds hvalid hwf

/-- The first violation of a valid pattern is the failure of the match. -/
theorem FirstViolation.failsWith {p : Pattern} {v : Value} {failure : MatchFailure}
    (h : FirstViolation p v failure) (hp : p.validate = .ok ()) (hv : v.WellFormed) :
    (p.matchInto v).FailsWith failure := by
  induction h with
  | literal unequal =>
      rw [matchInto, Literal.accepts_eq_beq, unequal]
      exact Matching.failsWith_fail _
  | @notATuple p v none =>
      rw [matchInto, none]
      exact Matching.failsWith_fail _
  | tag required wants rejects =>
      rw [matchInto_tuple]
      exact TuplePattern.failsWith_matchParts_of_tag required wants rejects
  | count tag misfit =>
      rw [validate_tuple_eq] at hp
      rw [matchInto_tuple]
      have hrest := (TuplePattern.validate_eq_ok_iff.mp hp).1
      exact TuplePattern.failsWith_matchParts_of_count hrest tag misfit
  | @positional p t done later q v failure tag count aligned before _ ih =>
      rw [validate_tuple_eq] at hp
      rw [matchInto_tuple]
      have hrest := (TuplePattern.validate_eq_ok_iff.mp hp).1
      -- the sub-patterns before the violation succeed, so the match gets there
      have hmem : ∀ x ∈ done ++ (q, v) :: later, x ∈ p.aligned t.positional := by
        rw [aligned]
        exact fun x hx => hx
      refine TuplePattern.failsWith_matchParts_of_positional hrest
        (Value.wellFormed_tuple_iff.mp hv).1 tag count aligned (fun x hx => ?_) ?_
      · obtain ⟨hvalid, hwf⟩ := valid_of_mem_aligned hp hv (hmem x (List.mem_append_left _ hx))
        exact (before x hx).succeeds hvalid hwf
      · obtain ⟨hvalid, hwf⟩ := valid_of_mem_aligned hp hv
          (hmem (q, v) (List.mem_append_right _ List.mem_cons_self))
        exact ih hvalid hwf
  | @missingField p t done later key part positional fields before missing =>
      rw [validate_tuple_eq] at hp
      refine positional.failsWith hp hv ?_
      refine TuplePattern.failsWith_matchFields_missing (fun x hx => ?_) fields missing
      exact (before x hx).succeeds hp hv (fields ▸ List.mem_append_left _ hx)
  | @field p t done later key q v failure positional fields before found _ ih =>
      rw [validate_tuple_eq] at hp
      refine positional.failsWith hp hv ?_
      have hmem : (key, .sub q) ∈ p.fields :=
        fields ▸ List.mem_append_right _ List.mem_cons_self
      obtain ⟨hvalid, hwf⟩ := valid_of_mem_fields hp hv hmem found
      refine TuplePattern.failsWith_matchFields_sub (fun x hx => ?_) fields found (ih hvalid hwf)
      exact (before x hx).succeeds hp hv (fields ▸ List.mem_append_left _ hx)

end Pattern

/-! ### Outcomes -/

namespace Matching

variable {α : Type} {m : Matching α} {cache : LayoutCache}

/-- A match that succeeds has bindings for its outcome. -/
theorem Succeeds.exists_outcome (h : m.Succeeds) (hc : cache.Valid) :
    ∃ bindings cache', m.outcome cache = (.ok (.matched bindings), cache') ∧ cache'.Valid := by
  obtain ⟨bound, cache', hm, hc'⟩ := h cache hc
  exact ⟨.ofList bound, cache', by simp only [outcome, hm], hc'⟩

/-- A match that fails has its failure for its outcome. -/
theorem FailsWith.exists_outcome {failure : MatchFailure} (h : m.FailsWith failure)
    (hc : cache.Valid) :
    ∃ cache', m.outcome cache = (.ok (.failed failure), cache') ∧ cache'.Valid := by
  obtain ⟨cache', hm, hc'⟩ := h cache hc
  exact ⟨cache', by simp only [outcome, hm], hc'⟩

/-- The bindings of a match are made of the names and values that it has bound. -/
theorem exists_of_outcome_matched {b : Bindings α}
    (h : (m.outcome cache).1 = .ok (.matched b)) :
    ∃ bound cache', m cache = (.ok bound, cache') ∧ b = .ofList bound := by
  unfold outcome at h
  rcases hm : m cache with ⟨result, cache'⟩
  simp only [hm] at h
  cases result with
  | ok bound =>
      cases h
      exact ⟨bound, cache', rfl, rfl⟩
  | error halt =>
      cases halt with
      | failed failure => cases h
      | malformed e => cases h

end Matching

/-- The outcome of matching a valid pattern: success on the values that fit, and the first violation
on all others. -/
theorem Pattern.outcome_semantics {p : Pattern} {v : Value} {cache : LayoutCache}
    (hp : p.validate = .ok ()) (hv : v.WellFormed) (hc : cache.Valid) :
    ((∃ bindings, ((p.matchInto v).outcome cache).1 = .ok (.matched bindings)) ↔ Fits p v) ∧
      ∀ failure, ((p.matchInto v).outcome cache).1 = .ok (.failed failure) ↔
        FirstViolation p v failure := by
  have hmatched : Fits p v →
      ∃ bindings, ((p.matchInto v).outcome cache).1 = .ok (.matched bindings) := by
    intro h
    obtain ⟨bindings, cache', hm, -⟩ := (h.succeeds hp hv).exists_outcome hc
    exact ⟨bindings, by rw [hm]⟩
  have hfailed : ∀ failure, FirstViolation p v failure →
      ((p.matchInto v).outcome cache).1 = .ok (.failed failure) := by
    intro failure h
    obtain ⟨cache', hm, -⟩ := (h.failsWith hp hv).exists_outcome hc
    rw [hm]
  refine ⟨⟨fun ⟨bindings, hb⟩ => ?_, hmatched⟩, fun failure => ⟨fun hf => ?_, hfailed failure⟩⟩
  · refine (fits_or_firstViolation p v).resolve_right fun ⟨failure, h⟩ => ?_
    rw [hfailed failure h] at hb
    cases hb
  · rcases fits_or_firstViolation p v with h | ⟨failure', h⟩
    · obtain ⟨bindings, hb⟩ := hmatched h
      rw [hb] at hf
      cases hf
    · rw [hfailed failure' h] at hf
      cases hf
      exact h

namespace TuplePattern

open Pattern (Fits FirstViolation)

/-- Without a check, a tuple pattern is matched like any other pattern. -/
theorem matchInto_eq_matchInto_tuple (p : TuplePattern Pattern) (t : Tuple Value) :
    p.matchInto t = (Pattern.tuple p).matchInto (.tuple t) := by
  rw [Pattern.matchInto_tuple]
  rfl

/-- The check of a valid tuple pattern does not show. -/
theorem matchTuple_of_valid {p : TuplePattern Pattern} (hp : p.validate = .ok ())
    (t : Tuple Value) (cache : LayoutCache) :
    p.matchTuple t cache = (p.matchInto t).outcome cache := by
  simp only [matchTuple, hp]

/-- A valid tuple pattern is matched like any other pattern. -/
theorem matchTuple_eq_outcome {p : TuplePattern Pattern} (hp : p.validate = .ok ())
    {t : Tuple Value} (cache : LayoutCache) :
    p.matchTuple t cache = ((Pattern.tuple p).matchInto (.tuple t)).outcome cache := by
  rw [matchTuple_of_valid hp, matchInto_eq_matchInto_tuple]

/-- The matcher is the semantics: the tuples that fit a valid pattern are the ones that are matched,
the failure on any other tuple is the first violation, and there is no further outcome. -/
theorem matchTuple_semantics {p : TuplePattern Pattern} {t : Tuple Value} {cache : LayoutCache}
    (hp : p.validate = .ok ()) (ht : (Value.tuple t).WellFormed) (hc : cache.Valid) :
    ((∃ bindings, (p.matchTuple t cache).1 = .ok (.matched bindings)) ↔
        Fits (.tuple p) (.tuple t)) ∧
      (∀ failure, (p.matchTuple t cache).1 = .ok (.failed failure) ↔
        FirstViolation (.tuple p) (.tuple t) failure) ∧
      (Fits (.tuple p) (.tuple t) ∨ ∃ failure, FirstViolation (.tuple p) (.tuple t) failure) := by
  have hvalid : (Pattern.tuple p).validate = .ok () := (Pattern.validate_tuple_eq p).trans hp
  obtain ⟨hmatched, hfailed⟩ := Pattern.outcome_semantics hvalid ht hc
  rw [matchTuple_eq_outcome hp]
  exact ⟨hmatched, hfailed, Pattern.fits_or_firstViolation _ _⟩

/-- The pattern `(1, ...r, _, x:)` on `(1, 2, 3)`: the positional members fit, the field is
missing. -/
theorem matchTuple_semantics_of_missing_field :
    let p : TuplePattern Pattern :=
      { positional := [.sub (.literal (.int 1)), .rest (some ⟨1⟩), .sub .wildcard],
        fields := [(⟨2⟩, .shorthand)] }
    let t : Tuple Value := ⟨⟨0, 0, .ofPositional 3⟩, [.int 1, .int 2, .int 3], []⟩
    (p.matchTuple t (.empty 0 true)).1 = .ok (.failed (.missingField ⟨2⟩)) := by
  intro p t
  have ht : (Value.tuple t).WellFormed := by
    refine .tuple ⟨rfl, rfl⟩ ?_
    simp [t, Tuple.members, Value.WellFormed.int]
  have hvalid : p.validate = .ok () := by rfl
  refine ((matchTuple_semantics hvalid ht (LayoutCache.valid_empty 0 true)).2.1 _).mpr ?_
  have haligned : p.aligned t.positional
      = [(.literal (.int 1), .int 1), (.wildcard, .int 3)] := rfl
  have hcount : p.CountFits t.arity := by
    show 2 ≤ 3
    decide
  refine .missingField ⟨nofun, hcount, ?_⟩ (List.nil_append _).symm nofun ?_
  · rw [haligned]
    intro x hx
    rcases List.mem_pair.mp hx with rfl | rfl
    · exact .literal (by decide)
    · exact .wildcard _
  · exact (Value.wellFormed_tuple_iff.mp ht).1.field?_eq_none_iff.mpr List.not_mem_nil

end TuplePattern

end TaggedTuple
