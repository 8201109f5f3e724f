import TaggedTuple.Proofs.Pattern.Bindings
import TaggedTuple.Proofs.Pattern.Validity
import TaggedTuple.Proofs.Transparency.Operations
import TaggedTuple.Pattern.Matching

/-!
# Two runs of a match

A pattern that is matched twice, against values that agree and with two valid caches, binds the same
names in the same order to values that agree, or fails in the same way both times
(`Pattern.matchInto_agree`). This holds of every pattern, well-formed or not, by induction on its
sub-patterns. Only captures touch a cache: the fields that a pattern does not mention are captured
in the order in which the layout at hand declares them, and yet as equal tuples.
-/

namespace TaggedTuple

/-- The same second marker, or captures with errors of the same kind. -/
inductive PatternError.SameVariant : PatternError → PatternError → Prop
  | multipleRest (first second : Nat) :
    SameVariant (.multipleRest first second) (.multipleRest first second)
  | capture {e e' : TupleError} (h : e.SameVariant e') : SameVariant (.capture e) (.capture e')

/-- An error is of its own kind. -/
theorem PatternError.SameVariant.refl (e : PatternError) : e.SameVariant e := by
  cases e with
  | multipleRest first second => exact .multipleRest first second
  | capture inner => exact .capture rfl

/-- The same failure, or malformed patterns of the same kind. -/
inductive Halt.Agree : Halt → Halt → Prop
  | failed (failure : MatchFailure) : Agree (.failed failure) (.failed failure)
  | malformed {e e' : PatternError} (h : e.SameVariant e') : Agree (.malformed e) (.malformed e')

/-- The same names in the same order, bound to values that agree. -/
def Bindings.Agree (b b' : Bindings Value) : Prop := List.Forall₂ EntryAgree b.entries b'.entries

/-- Both match with bindings that agree, or both fail in the same way. -/
inductive MatchOutcome.Agree : MatchOutcome Value → MatchOutcome Value → Prop
  | matched {b b' : Bindings Value} (h : b.Agree b') : Agree (.matched b) (.matched b')
  | failed (failure : MatchFailure) : Agree (.failed failure) (.failed failure)

/-- The same arm, with bindings that agree. -/
def ArmMatch.Agree (a a' : ArmMatch Value) : Prop := a.arm = a'.arm ∧ a.bindings.Agree a'.bindings

namespace Matching

/-- On valid caches both matches end in the same way. -/
def Agree (m m' : Matching Value) : Prop :=
  ∀ c d : LayoutCache, c.Valid → d.Valid →
    CachedRel (ExceptRel Halt.Agree (List.Forall₂ EntryAgree)) (m c) (m' d)

/-- The empty match ends in the same way twice. -/
theorem agree_nothing : (nothing : Matching Value).Agree nothing := fun _ _ hc hd =>
  ⟨.ok .nil, hc, hd⟩

/-- Binding values that agree ends in the same way. -/
theorem agree_bind (name : Symbol) {v w : Value} (h : v.Agree w) :
    (bind name v).Agree (bind name w) := fun _ _ hc hd =>
  ⟨.ok (.cons ⟨rfl, h⟩ .nil), hc, hd⟩

/-- A failure ends in the same way twice. -/
theorem agree_fail (failure : MatchFailure) :
    (fail failure : Matching Value).Agree (fail failure) := fun _ _ hc hd =>
  ⟨.error (.failed failure), hc, hd⟩

/-- Sequences of matches that agree do so too. -/
theorem Agree.followedBy {a a' b b' : Matching Value} (ha : a.Agree a') (hb : b.Agree b') :
    (a.followedBy b).Agree (a'.followedBy b') := by
  intro c d hc hd
  unfold Matching.followedBy
  refine CachedRel.elim (ha c d hc hd) ?_ ?_
  · intro bound bound' c d hbound hc hd
    dsimp only
    refine CachedRel.elim (hb c d hc hd) ?_ ?_
    · intro more more' c d hmore hc hd
      exact ⟨.ok (List.rel_append hbound hmore), hc, hd⟩
    · intro e e' c d he hc hd
      exact ⟨.error he, hc, hd⟩
  · intro e e' c d he hc hd
    exact ⟨.error he, hc, hd⟩

/-- Captures agree when the tuples that they build do. -/
theorem agree_capture (name : Symbol)
    {build build' : LayoutCache → Except TupleError (Tuple Value) × LayoutCache}
    (h : ∀ c d : LayoutCache, c.Valid → d.Valid →
      CachedRel (ExceptRel TupleError.SameVariant Tuple.Agree) (build c) (build' d)) :
    (capture .tuple name build).Agree (capture .tuple name build') := by
  intro c d hc hd
  unfold capture
  refine CachedRel.elim (h c d hc hd) ?_ ?_
  · intro t u c d htu hc hd
    exact ⟨.ok (.cons ⟨rfl, htu⟩ .nil), hc, hd⟩
  · intro e e' c d he hc hd
    exact ⟨.error (.malformed (.capture he)), hc, hd⟩

end Matching

/-! ### Tuple patterns -/

namespace TuplePattern

variable {t u : Tuple Value} (h : t.Agree u)
include h

/-- Positional parts agree if their sub-patterns do. -/
theorem matchPositional_agree (alignment : Alignment) (i : Nat)
    {parts : List (PositionalPattern (Value → Matching Value))}
    (hparts : ∀ run, .sub run ∈ parts → ∀ v w, v.Agree w → (run v).Agree (run w)) :
    (matchPositional .tuple alignment t i parts).Agree
      (matchPositional .tuple alignment u i parts) := by
  induction parts generalizing i with
  | nil => exact Matching.agree_nothing
  | cons part parts ih =>
      have htail := fun j => ih j fun run hrun => hparts run (List.mem_cons_of_mem _ hrun)
      cases part with
      | rest name =>
          cases name with
          | none =>
              rw [matchPositional, matchPositional]
              exact htail (i + 1)
          | some name =>
              rw [matchPositional, matchPositional]
              refine Matching.Agree.followedBy (Matching.agree_capture name fun c d hc hd => ?_)
                (htail (i + 1))
              obtain ⟨hresult, hc', hd'⟩ :=
                h.slicePositional alignment.restStart alignment.restStop hc hd
              exact ⟨hresult.of_eq fun _ => rfl, hc', hd'⟩
      | sub run =>
          rw [matchPositional, matchPositional]
          have hvalue : Option.Rel Value.Agree ((alignment.valueIndex? i).bind t.at?)
              ((alignment.valueIndex? i).bind u.at?) := by
            cases alignment.valueIndex? i with
            | none => exact .none
            | some j =>
                rw [Option.bind_some, Option.bind_some, h.left.at?_eq, h.right.at?_eq]
                exact forall₂_getElem? h.rel.positional j
          generalize (alignment.valueIndex? i).bind t.at? = found at hvalue ⊢
          generalize (alignment.valueIndex? i).bind u.at? = found' at hvalue ⊢
          cases hvalue with
          | none => exact htail (i + 1)
          | some hvw =>
              exact (hparts run List.mem_cons_self _ _ hvw).followedBy (htail (i + 1))

/-- Parts for fields agree if their sub-patterns do. -/
theorem matchFields_agree {parts : List (Symbol × FieldPattern (Value → Matching Value))}
    (hparts : ∀ key run, (key, .sub run) ∈ parts → ∀ v w, v.Agree w → (run v).Agree (run w)) :
    (matchFields t parts).Agree (matchFields u parts) := by
  induction parts with
  | nil => exact Matching.agree_nothing
  | cons part parts ih =>
      obtain ⟨key, part⟩ := part
      have htail := ih fun key run hrun => hparts key run (List.mem_cons_of_mem _ hrun)
      have hvalue := h.rel.field key
      rw [matchFields, matchFields]
      generalize t.field? key = found at hvalue ⊢
      generalize u.field? key = found' at hvalue ⊢
      cases hvalue with
      | none => exact Matching.agree_fail _
      | some hvw =>
          refine Matching.Agree.followedBy ?_ htail
          cases part with
          | shorthand => exact Matching.agree_bind key hvw
          | sub run => exact hparts key run List.mem_cons_self _ _ hvw

/-- The fields that are left are the same, in the order of either layout. -/
theorem matchNamedRest_agree (p : TuplePattern (Value → Matching Value)) :
    (matchNamedRest .tuple p t).Agree (matchNamedRest .tuple p u) := by
  unfold matchNamedRest
  cases p.namedRest with
  | none => exact Matching.agree_nothing
  | some name =>
      have hperm : (p.unmentioned t.layout).Perm (p.unmentioned u.layout) :=
        (h.rel.fields_perm h.left h.right).filter _
      exact Matching.agree_capture name fun c d hc hd => h.projectNamed hperm hc hd

/-- A tuple pattern agrees if its sub-patterns do. -/
theorem matchParts_agree {p : TuplePattern (Value → Matching Value)}
    (hpositional : ∀ run, .sub run ∈ p.positional → ∀ v w, v.Agree w → (run v).Agree (run w))
    (hfields : ∀ key run, (key, .sub run) ∈ p.fields → ∀ v w, v.Agree w →
      (run v).Agree (run w)) :
    (matchParts .tuple p t).Agree (matchParts .tuple p u) := by
  unfold matchParts
  rw [h.arity_eq, h.rel.tag_eq]
  cases p.checkTag u.tag with
  | error failure => exact Matching.agree_fail failure
  | ok _ =>
      cases p.align u.arity with
      | error failure => exact Matching.agree_fail failure
      | ok alignment =>
          exact (matchPositional_agree h alignment 0 hpositional).followedBy
            ((matchFields_agree h hfields).followedBy (matchNamedRest_agree h p))

end TuplePattern

/-! ### Patterns -/

namespace Pattern

/-- A pattern matches values that agree in the same way. -/
theorem matchInto_agree (p : Pattern) {v w : Value} (h : v.Agree w) :
    (p.matchInto v).Agree (p.matchInto w) := by
  induction p using Pattern.induction generalizing v w with
  | wildcard => exact Matching.agree_nothing
  | bind name => exact Matching.agree_bind name h
  | literal l =>
      have haccepts : l.accepts v = l.accepts w := by
        rcases h.cases with ⟨n, rfl, rfl⟩ | ⟨s, rfl, rfl⟩ | ⟨t, u, rfl, rfl, -⟩
        · rfl
        · rfl
        · cases l <;> rfl
      rw [matchInto, matchInto, haccepts]
      split_ifs
      · exact Matching.agree_nothing
      · exact Matching.agree_fail _
  | tuple p ihPositional ihFields =>
      rcases h.cases with ⟨n, rfl, rfl⟩ | ⟨s, rfl, rfl⟩ | ⟨t, u, rfl, rfl, -⟩
      · exact Matching.agree_fail _
      · exact Matching.agree_fail _
      · rw [matchInto_tuple, matchInto_tuple]
        refine TuplePattern.matchParts_agree h (fun run hrun => ?_) fun key run hrun => ?_
        · obtain ⟨q, hq, rfl⟩ := (TuplePattern.sub_mem_positional_map_iff _ p).mp hrun
          exact fun v w hvw => ihPositional q hq hvw
        · obtain ⟨q, hq, rfl⟩ := (TuplePattern.sub_mem_fields_map_iff _ p).mp hrun
          exact fun v w hvw => ihFields key q hq hvw

end Pattern

/-! ### Outcomes -/

/-- Bindings of values that agree do so too. -/
theorem Bindings.ofList_agree {l m : List (Symbol × Value)} (h : List.Forall₂ EntryAgree l m) :
    (Bindings.ofList l).Agree (Bindings.ofList m) :=
  ofList_rel h

section outcome

variable {c d : LayoutCache} (hc : c.Valid) (hd : d.Valid)
include hc hd

/-- Matches that agree have outcomes that do. -/
theorem Matching.Agree.outcome {m m' : Matching Value} (h : m.Agree m') :
    CachedRel (ExceptRel PatternError.SameVariant MatchOutcome.Agree) (m.outcome c)
      (m'.outcome d) := by
  unfold Matching.outcome
  refine CachedRel.elim (h c d hc hd) ?_ ?_
  · intro bound bound' c d hbound hc hd
    exact ⟨.ok (.matched (Bindings.ofList_agree hbound)), hc, hd⟩
  · intro halt halt' c d hhalt hc hd
    cases hhalt with
    | failed failure => exact ⟨.ok (.failed failure), hc, hd⟩
    | malformed he => exact ⟨.error he, hc, hd⟩

/-- Values that agree have outcomes that do. -/
theorem Pattern.matchValue_agree (p : Pattern) {v w : Value} (h : v.Agree w) :
    CachedRel (ExceptRel PatternError.SameVariant MatchOutcome.Agree) (p.matchValue v c)
      (p.matchValue w d) := by
  unfold matchValue
  cases p.validate with
  | error e => exact ⟨.error (.refl e), hc, hd⟩
  | ok _ => exact (p.matchInto_agree h).outcome hc hd

namespace TuplePattern

variable {t u : Tuple Value} (h : t.Agree u)
include h

omit hc hd in
/-- A tuple pattern matches tuples that agree in the same way. -/
theorem matchInto_agree (p : TuplePattern Pattern) : (p.matchInto t).Agree (p.matchInto u) := by
  have hp := (Pattern.tuple p).matchInto_agree h
  rwa [Pattern.matchInto_tuple, Pattern.matchInto_tuple] at hp

/-- Tuples that agree have outcomes that do. -/
theorem matchTuple_agree (p : TuplePattern Pattern) :
    CachedRel (ExceptRel PatternError.SameVariant MatchOutcome.Agree) (p.matchTuple t c)
      (p.matchTuple u d) := by
  unfold matchTuple
  cases p.validate with
  | error e => exact ⟨.error (.refl e), hc, hd⟩
  | ok _ => exact (matchInto_agree h p).outcome hc hd

/-- Arms are tried on tuples that agree with the same result. -/
theorem tryArms_agree (arms : List (TuplePattern Pattern)) (i : Nat) :
    CachedRel (ExceptRel PatternError.SameVariant (Option.Rel ArmMatch.Agree)) (tryArms t i arms c)
      (tryArms u i arms d) := by
  induction arms generalizing i c d with
  | nil => exact ⟨.ok .none, hc, hd⟩
  | cons p arms ih =>
      rw [tryArms, tryArms]
      refine CachedRel.elim ((matchInto_agree h p).outcome hc hd) ?_ ?_
      · intro outcome outcome' c d houtcome hc hd
        cases houtcome with
        | matched hb => exact ⟨.ok (.some ⟨rfl, hb⟩), hc, hd⟩
        | failed failure => exact ih hc hd (i + 1)
      · intro e e' c d he hc hd
        exact ⟨.error he, hc, hd⟩

/-- The same arm matches tuples that agree. -/
theorem matchArms_agree (arms : List (TuplePattern Pattern)) :
    CachedRel (ExceptRel PatternError.SameVariant (Option.Rel ArmMatch.Agree)) (matchArms arms t c)
      (matchArms arms u d) := by
  unfold matchArms
  cases validateAll arms with
  | error e => exact ⟨.error (.refl e), hc, hd⟩
  | ok _ => exact tryArms_agree hc hd h arms 0

end TuplePattern

end outcome

end TaggedTuple
