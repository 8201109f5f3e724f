import TaggedTuple.Pattern.Matching
import TaggedTuple.Proofs.Pattern.Parts
import TaggedTuple.Proofs.Tuple.Construction

/-!
# A match of a tuple as a sequence of matches

Matches in progress form a monoid under `Matching.followedBy`. A match of a tuple whose tag and
number of positional members fit is one sequence: the aligned sub-patterns with the capture of the
rest among them, the parts for fields, and the capture of the fields that are left
(`matchParts_eq`). Positions and indices do not show there any more.

A sequence succeeds when all its members do, and fails as the first member does that fails
(`Matching.Succeeds`, `Matching.FailsWith`). Captures always succeed.
-/

set_option linter.unusedSectionVars false

namespace TaggedTuple

variable {α : Type}

namespace Matching

/-! ### The monoid of matches -/

/-- The empty match is a left unit. -/
theorem nothing_followedBy (m : Matching α) : nothing.followedBy m = m := by
  funext cache
  unfold followedBy nothing
  cases hm : m cache with
  | mk result cache' => cases result <;> simp [hm]

/-- The empty match is a right unit. -/
theorem followedBy_nothing (m : Matching α) : m.followedBy nothing = m := by
  funext cache
  unfold followedBy nothing
  cases hm : m cache with
  | mk result cache' => cases result <;> simp

/-- Sequences of matches associate. -/
theorem followedBy_assoc (a b c : Matching α) :
    (a.followedBy b).followedBy c = a.followedBy (b.followedBy c) := by
  funext cache
  unfold followedBy
  cases ha : a cache with
  | mk result cache' =>
      cases result with
      | error halt => simp
      | ok bound =>
          cases hb : b cache' with
          | mk result cache'' =>
              cases result with
              | error halt => simp [hb]
              | ok more =>
                  cases hc : c cache'' with
                  | mk result cache''' => cases result <;> simp [hb, hc]

/-- Matches values one after the other. -/
def inOrder {π : Type} (run : π → α → Matching α) (pairs : List (π × α)) : Matching α :=
  pairs.foldr (fun x m => (run x.1 x.2).followedBy m) nothing

/-- A longer list of matches is a sequence of two lists. -/
theorem inOrder_append {π : Type} (run : π → α → Matching α) (xs ys : List (π × α)) :
    inOrder run (xs ++ ys) = (inOrder run xs).followedBy (inOrder run ys) := by
  induction xs with
  | nil => exact (nothing_followedBy _).symm
  | cons x xs ih =>
      show (run x.1 x.2).followedBy (inOrder run (xs ++ ys)) = _
      rw [ih, ← followedBy_assoc]
      rfl

/-- Patterns may be mapped before the matches or in them. -/
theorem inOrder_map {π ρ : Type} (run : ρ → α → Matching α) (g : π → ρ) (xs : List (π × α)) :
    inOrder run (xs.map (Prod.map g id)) = inOrder (fun q => run (g q)) xs :=
  List.foldr_map

/-! ### Success and failure -/

/-- The match succeeds on every valid cache. -/
def Succeeds (m : Matching α) : Prop :=
  ∀ cache : LayoutCache, cache.Valid → ∃ bound cache', m cache = (.ok bound, cache') ∧ cache'.Valid

/-- The match fails in the given way on every valid cache. -/
def FailsWith (m : Matching α) (failure : MatchFailure) : Prop :=
  ∀ cache : LayoutCache, cache.Valid →
    ∃ cache', m cache = (.error (.failed failure), cache') ∧ cache'.Valid

variable {a b : Matching α} {failure : MatchFailure}

/-- The empty match succeeds. -/
theorem succeeds_nothing : (nothing : Matching α).Succeeds := fun cache hc =>
  ⟨[], cache, rfl, hc⟩

/-- Binding a value succeeds. -/
theorem succeeds_bind (name : Symbol) (value : α) : (bind name value).Succeeds := fun cache hc =>
  ⟨[(name, value)], cache, rfl, hc⟩

/-- A failure fails as it says. -/
theorem failsWith_fail (failure : MatchFailure) : (fail failure : Matching α).FailsWith failure :=
  fun cache hc => ⟨cache, rfl, hc⟩

/-- A sequence of two matches that succeed succeeds. -/
theorem Succeeds.followedBy (ha : a.Succeeds) (hb : b.Succeeds) : (a.followedBy b).Succeeds := by
  intro cache hc
  obtain ⟨bound, cache', ha, hc'⟩ := ha cache hc
  obtain ⟨more, cache'', hb, hc''⟩ := hb cache' hc'
  exact ⟨bound ++ more, cache'', by simp only [Matching.followedBy, ha, hb], hc''⟩

/-- A sequence fails as its first half does. -/
theorem FailsWith.followedBy (ha : a.FailsWith failure) (b : Matching α) :
    (a.followedBy b).FailsWith failure := by
  intro cache hc
  obtain ⟨cache', ha, hc'⟩ := ha cache hc
  exact ⟨cache', by simp only [Matching.followedBy, ha], hc'⟩

/-- A sequence whose first half succeeds fails as its second half does. -/
theorem Succeeds.followedBy_failsWith (ha : a.Succeeds) (hb : b.FailsWith failure) :
    (a.followedBy b).FailsWith failure := by
  intro cache hc
  obtain ⟨bound, cache', ha, hc'⟩ := ha cache hc
  obtain ⟨cache'', hb, hc''⟩ := hb cache' hc'
  exact ⟨cache'', by simp only [Matching.followedBy, ha, hb], hc''⟩

section inOrder

variable {π : Type} {run : π → α → Matching α}

/-- A list of matches succeeds if all of them do. -/
theorem succeeds_inOrder {pairs : List (π × α)} (h : ∀ x ∈ pairs, (run x.1 x.2).Succeeds) :
    (inOrder run pairs).Succeeds := by
  induction pairs with
  | nil => exact succeeds_nothing
  | cons x pairs ih =>
      rw [List.forall_mem_cons] at h
      exact h.1.followedBy (ih h.2)

/-- The first failure in a sequence is the failure of the sequence. -/
theorem failsWith_inOrder {done later : List (π × α)} {x : π × α}
    (hdone : ∀ x ∈ done, (run x.1 x.2).Succeeds) (h : (run x.1 x.2).FailsWith failure) :
    (inOrder run (done ++ x :: later)).FailsWith failure := by
  rw [inOrder_append]
  exact (succeeds_inOrder hdone).followedBy_failsWith (h.followedBy _)

end inOrder

end Matching

namespace TuplePattern

open Matching (inOrder)

variable {wrap : Tuple α → α} {p : TuplePattern (α → Matching α)} {t : Tuple α}

/-! ### Positional parts -/

/-- The capture of the values that the rest marker stands for. -/
def captureRest (wrap : Tuple α → α) (p : TuplePattern (α → Matching α)) (t : Tuple α) :
    Matching α :=
  match p.positional.find? (·.isRest) with
  | some (.rest (some name)) =>
    .capture wrap name (t.slicePositional p.leading.length (t.arity - p.trailing.length))
  | _ => .nothing

/-- Sub-patterns in a row match values in a row. -/
theorem matchPositional_subs {alignment : Alignment} (ht : t.WellFormed)
    (runs : List (α → Matching α)) (i k : Nat) (later : List (PositionalPattern (α → Matching α)))
    (hvalue : ∀ j < runs.length, alignment.valueIndex? (i + j) = some (k + j))
    (hlength : k + runs.length ≤ t.positional.length) :
    matchPositional wrap alignment t i (runs.map .sub ++ later)
      = (inOrder id (runs.zip (t.positional.drop k))).followedBy
        (matchPositional wrap alignment t (i + runs.length) later) := by
  induction runs generalizing i k with
  | nil => exact (Matching.nothing_followedBy _).symm
  | cons run runs ih =>
      have hk : k < t.positional.length := by
        rw [List.length_cons] at hlength
        omega
      have hhead : (alignment.valueIndex? i).bind t.at? = some t.positional[k] := by
        have h := hvalue 0 (Nat.zero_lt_succ _)
        rw [Nat.add_zero, Nat.add_zero] at h
        rw [h, Option.bind_some, ht.at?_eq, List.getElem?_eq_getElem hk]
      rw [List.map_cons, List.cons_append, matchPositional, hhead]
      dsimp only
      rw [ih (i + 1) (k + 1) ?_ ?_, List.drop_eq_getElem_cons hk, List.zip_cons_cons,
        ← Matching.followedBy_assoc, List.length_cons, Nat.add_right_comm i 1, ← Nat.add_assoc]
      · rfl
      · intro j hj
        have h := hvalue (j + 1) (Nat.succ_lt_succ hj)
        rwa [← Nat.add_assoc, ← Nat.add_assoc, Nat.add_right_comm i, Nat.add_right_comm k] at h
      · rw [List.length_cons] at hlength
        omega

section aligned

variable (hp : p.SingleRest) (ht : t.WellFormed) (hcount : p.CountFits t.arity)
include hp ht hcount

/-- The leading sub-patterns match the first values, in order. -/
theorem matchPositional_leading (later : List (PositionalPattern (α → Matching α))) :
    matchPositional wrap (p.alignment t.arity) t 0 (p.leading.map .sub ++ later)
      = (inOrder id (p.leading.zip t.positional)).followedBy
        (matchPositional wrap (p.alignment t.arity) t p.leading.length later) := by
  have hlength := hp.length_le hcount
  rw [matchPositional_subs ht p.leading 0 0 later ?_ ?_, List.drop_zero, Nat.zero_add]
  · intro j hj
    rw [Nat.zero_add]
    exact valueIndex?_leading hj
  · rw [ht.positional_length, Nat.zero_add]
    exact Nat.le_trans (Nat.le_add_right ..) hlength

/-- The trailing sub-patterns match the last values, in order. -/
theorem matchPositional_trailing :
    matchPositional wrap (p.alignment t.arity) t (p.leading.length + 1) (p.trailing.map .sub)
      = inOrder id (p.trailing.zip
          (t.positional.drop (t.positional.length - p.trailing.length))) := by
  have hlength : p.leading.length + p.trailing.length ≤ t.positional.length := by
    rw [ht.positional_length]
    exact hp.length_le hcount
  have harity : t.arity = t.positional.length := ht.positional_length.symm
  rw [← List.append_nil (p.trailing.map PositionalPattern.sub),
    matchPositional_subs ht p.trailing _ (t.positional.length - p.trailing.length) [] ?_ ?_,
    matchPositional, Matching.followedBy_nothing]
  · intro j _
    rw [← harity]
    exact valueIndex?_trailing p t.arity j
  · omega

/-- Positional parts match the aligned values, and the rest is captured in its place. -/
theorem matchPositional_eq :
    matchPositional wrap (p.alignment t.arity) t 0 p.positional
      = (inOrder id (p.leading.zip t.positional)).followedBy
        ((p.captureRest wrap t).followedBy (inOrder id (p.trailing.zip
          (t.positional.drop (t.positional.length - p.trailing.length))))) := by
  rcases hp.positional_cases with ⟨-, hparts, htrailing⟩ | ⟨hrest, name, hparts⟩
  · have hcapture : p.captureRest wrap t = .nothing := by
      unfold captureRest
      rw [hparts]
      simp
    rw [hcapture, htrailing, hparts, ← List.append_nil (p.leading.map PositionalPattern.sub),
      matchPositional_leading hp ht hcount, matchPositional, List.zip_nil_left]
    rfl
  · have hfind : p.positional.find? (·.isRest) = some (.rest name) := by
      rw [hparts]
      simp
    have hstart : (p.alignment t.arity).restStart = p.leading.length := if_pos hrest
    rw [hparts, matchPositional_leading hp ht hcount, ← matchPositional_trailing hp ht hcount]
    unfold captureRest
    rw [hfind]
    cases name with
    | none =>
        rw [matchPositional]
        exact congrArg _ (Matching.nothing_followedBy _).symm
    | some name =>
        rw [matchPositional, hstart]
        rfl

/-- A match of a tuple whose tag and number of positional members fit. -/
theorem matchParts_eq (htag : p.TagFits t.tag) :
    matchParts wrap p t
      = (inOrder id (p.leading.zip t.positional)).followedBy
        ((p.captureRest wrap t).followedBy ((inOrder id (p.trailing.zip
          (t.positional.drop (t.positional.length - p.trailing.length)))).followedBy
            ((matchFields t p.fields).followedBy (matchNamedRest wrap p t)))) := by
  unfold matchParts
  rw [checkTag_of_tagFits htag, align_of_countFits hp hcount]
  dsimp only
  rw [matchPositional_eq hp ht hcount, Matching.followedBy_assoc, Matching.followedBy_assoc]

end aligned

/-! ### Captures -/

/-- A capture succeeds if its tuple can be built. -/
theorem succeeds_capture {name : Symbol}
    {build : LayoutCache → Except TupleError (Tuple α) × LayoutCache}
    (h : ∀ cache : LayoutCache, cache.Valid → ∃ u cache', build cache = (.ok u, cache') ∧
      cache'.Valid) : (Matching.capture wrap name build).Succeeds := by
  intro cache hc
  obtain ⟨u, cache', hbuild, hc'⟩ := h cache hc
  exact ⟨[(name, wrap u)], cache', by simp only [Matching.capture, hbuild], hc'⟩

/-- The values between the leading and the trailing ones are a range of the positional members. -/
theorem succeeds_captureRest (hp : p.SingleRest) (ht : t.WellFormed)
    (hcount : p.CountFits t.arity) : (p.captureRest wrap t).Succeeds := by
  have hlength := hp.length_le hcount
  have harity : t.arity = t.positional.length := ht.positional_length.symm
  unfold captureRest
  split
  · refine succeeds_capture fun cache hc => ?_
    rcases t.slicePositional_cases p.leading.length (t.arity - p.trailing.length) hc with
      ⟨-, -, u, cache', hslice, hc', -⟩ | ⟨hrange, -⟩
    · exact ⟨u, cache', hslice, hc'⟩
    · exact absurd ⟨by omega, by omega⟩ hrange
  · exact Matching.succeeds_nothing

/-- The fields that are not mentioned are distinct fields of the tuple, and the capture holds them
and no others. -/
theorem exists_projectNamed_unmentioned {π : Type} (p : TuplePattern π) (ht : t.WellFormed)
    {cache : LayoutCache} (hc : cache.Valid) :
    ∃ u cache', t.projectNamed (p.unmentioned t.layout) cache = (.ok u, cache') ∧ cache'.Valid ∧
      u.HasMembers none [] fun f => if f ∈ p.fields.map Prod.fst then none else t.field? f := by
  have hnodup : (p.unmentioned t.layout).Nodup := t.layout.fields_nodup.filter _
  rcases t.projectNamed_cases (p.unmentioned t.layout) hc with
    ⟨f, hf, -⟩ | ⟨-, f, hf, hnone, -⟩ | ⟨-, -, u, cache', hproject, hc', hmembers⟩
  · exact absurd hnodup (not_nodup_of_repeatedField? hf)
  · exact absurd (List.mem_of_mem_filter hf) (ht.field?_eq_none_iff.mp hnone)
  · refine ⟨u, cache', hproject, hc', hmembers.wellFormed, hmembers.tag_eq, hmembers.positional_eq,
      fun f => ?_⟩
    rw [hmembers.field?_eq]
    simp only [mem_unmentioned_iff, ← ht.isSome_field?_iff]
    by_cases hf : f ∈ p.fields.map Prod.fst
    · rw [if_neg fun h => h.2 hf, if_pos hf]
    · cases hv : t.field? f <;> simp [hf]

/-- The capture of the fields that are left succeeds. -/
theorem succeeds_matchNamedRest (p : TuplePattern (α → Matching α)) (ht : t.WellFormed) :
    (matchNamedRest wrap p t).Succeeds := by
  unfold matchNamedRest
  cases p.namedRest with
  | none => exact Matching.succeeds_nothing
  | some name =>
      refine succeeds_capture fun cache hc => ?_
      obtain ⟨u, cache', hproject, hc', -⟩ := exists_projectNamed_unmentioned p ht hc
      exact ⟨u, cache', hproject, hc'⟩

/-! ### Fields -/

section fields

variable {π : Type} {run : π → α → Matching α} {parts done : List (Symbol × FieldPattern π)}
  {key : Symbol} {failure : MatchFailure}

/-- Parts for fields match in the order of the list. -/
theorem matchFields_append (xs ys : List (Symbol × FieldPattern (α → Matching α))) :
    matchFields t (xs ++ ys) = (matchFields t xs).followedBy (matchFields t ys) := by
  induction xs with
  | nil => exact (Matching.nothing_followedBy _).symm
  | cons x xs ih =>
      obtain ⟨key, part⟩ := x
      rw [List.cons_append, matchFields, matchFields]
      cases t.field? key with
      | none => rfl
      | some value =>
          dsimp only
          rw [ih, Matching.followedBy_assoc]

/-- The field of a part is there, and the match of its value, if any, succeeds. -/
def FieldSucceeds (run : π → α → Matching α) (t : Tuple α) (x : Symbol × FieldPattern π) : Prop :=
  ∃ value, t.field? x.1 = some value ∧ ∀ q, x.2 = .sub q → (run q value).Succeeds

/-- Parts for fields succeed if each one does. -/
theorem succeeds_matchFields (h : ∀ x ∈ parts, FieldSucceeds run t x) :
    (matchFields t (parts.map fun x => (x.1, x.2.map run))).Succeeds := by
  induction parts with
  | nil => exact Matching.succeeds_nothing
  | cons x parts ih =>
      obtain ⟨key, part⟩ := x
      rw [List.forall_mem_cons] at h
      obtain ⟨⟨value, hvalue, hpart⟩, h⟩ := h
      rw [List.map_cons, matchFields, hvalue]
      refine Matching.Succeeds.followedBy ?_ (ih h)
      cases part with
      | shorthand => exact Matching.succeeds_bind key value
      | sub q => exact hpart q rfl

/-- The first field that is not there is the failure. -/
theorem failsWith_matchFields_missing (hdone : ∀ x ∈ done, FieldSucceeds run t x)
    {part : FieldPattern π} {later : List (Symbol × FieldPattern π)}
    (hparts : parts = done ++ (key, part) :: later) (h : t.field? key = none) :
    (matchFields t (parts.map fun x => (x.1, x.2.map run))).FailsWith (.missingField key) := by
  rw [hparts, List.map_append, List.map_cons, matchFields_append, matchFields, h]
  exact (succeeds_matchFields hdone).followedBy_failsWith (Matching.failsWith_fail _)

/-- The first value of a field that fails is the failure. -/
theorem failsWith_matchFields_sub (hdone : ∀ x ∈ done, FieldSucceeds run t x) {q : π} {value : α}
    {later : List (Symbol × FieldPattern π)} (hparts : parts = done ++ (key, .sub q) :: later)
    (hvalue : t.field? key = some value) (h : (run q value).FailsWith failure) :
    (matchFields t (parts.map fun x => (x.1, x.2.map run))).FailsWith failure := by
  rw [hparts, List.map_append, List.map_cons, matchFields_append, matchFields, hvalue]
  exact (succeeds_matchFields hdone).followedBy_failsWith (h.followedBy _)

end fields

/-! ### A match of a tuple -/

/-- An element of two lists in a row stands in the second one or in the first one. -/
theorem element_of_append_eq {β : Type} {xs ys done later : List β} {x : β}
    (h : xs ++ ys = done ++ x :: later) :
    (∃ before, done = xs ++ before ∧ ys = before ++ x :: later) ∨
      ∃ behind, xs = done ++ x :: behind := by
  rcases List.append_eq_append_iff.mp h with ⟨before, hdone, hys⟩ | ⟨behind, hxs, heq⟩
  · exact .inl ⟨before, hdone, hys⟩
  · cases behind with
    | nil => exact .inl ⟨[], by rw [hxs, List.append_nil, List.append_nil], heq.symm⟩
    | cons y behind =>
        obtain ⟨rfl, -⟩ := List.cons.inj heq
        exact .inr ⟨behind, hxs⟩

section outcome

variable {π : Type} {run : π → α → Matching α} {p : TuplePattern π} {failure : MatchFailure}

/-- A tag that the requirement does not take is the first failure. -/
theorem failsWith_matchParts_of_tag {requirement : TagRequirement} {wanted : Option Symbol}
    (htag : p.tag = some requirement) (hwanted : requirement.Takes wanted)
    (h : ¬requirement.Takes t.tag) :
    (matchParts wrap (p.map run) t).FailsWith (.tagMismatch wanted t.tag) := by
  unfold matchParts
  rw [checkTag_of_not_takes (p := p.map run) htag hwanted h]
  exact Matching.failsWith_fail _

/-- A number of members that does not fit is the failure behind the tag. -/
theorem failsWith_matchParts_of_count (hp : p.SingleRest) (htag : p.TagFits t.tag)
    (h : ¬p.CountFits t.arity) :
    (matchParts wrap (p.map run) t).FailsWith (.arityMismatch p.fixedCount t.arity p.hasRest) := by
  have hcount : ¬(p.map run).CountFits t.arity := fun hcount => h ((countFits_map run p).mp hcount)
  unfold matchParts
  rw [checkTag_of_tagFits ((tagFits_map run p).mpr htag),
    align_of_not_countFits ((singleRest_map run p).mpr hp) hcount, fixedCount_map, hasRest_map]
  exact Matching.failsWith_fail _

variable (hp : p.SingleRest) (ht : t.WellFormed) (htag : p.TagFits t.tag)
  (hcount : p.CountFits t.arity)
include hp ht htag hcount

/-- A match of a tuple goes through the leading sub-patterns, the capture of the rest, the trailing
sub-patterns, the parts for fields, and the capture of the fields that are left. -/
theorem matchParts_map_eq :
    matchParts wrap (p.map run) t = (inOrder run (p.leading.zip t.positional)).followedBy
      (((p.map run).captureRest wrap t).followedBy ((inOrder run (p.trailing.zip
        (t.positional.drop (t.positional.length - p.trailing.length)))).followedBy
          ((matchFields t (p.fields.map fun x => (x.1, x.2.map run))).followedBy
            (matchNamedRest wrap (p.map run) t)))) := by
  rw [matchParts_eq ((singleRest_map run p).mpr hp) ht ((countFits_map run p).mpr hcount)
    ((tagFits_map run p).mpr htag), leading_map, trailing_map, List.length_map, List.zip_map_left,
    List.zip_map_left, Matching.inOrder_map, Matching.inOrder_map]
  rfl

/-- The sub-patterns that a match goes through are the aligned ones. -/
theorem exists_matchParts_eq :
    ∃ leading trailing : List (π × α), p.aligned t.positional = leading ++ trailing ∧
      matchParts wrap (p.map run) t = (inOrder run leading).followedBy
        (((p.map run).captureRest wrap t).followedBy ((inOrder run trailing).followedBy
          ((matchFields t (p.fields.map fun x => (x.1, x.2.map run))).followedBy
            (matchNamedRest wrap (p.map run) t)))) :=
  ⟨_, _, rfl, matchParts_map_eq hp ht htag hcount⟩

/-- The capture of the positional rest succeeds. -/
theorem succeeds_captureRest_map : ((p.map run).captureRest wrap t).Succeeds :=
  succeeds_captureRest ((singleRest_map run p).mpr hp) ht ((countFits_map run p).mpr hcount)

/-- A match whose parts all succeed succeeds. -/
theorem succeeds_matchParts (hpositional : ∀ x ∈ p.aligned t.positional, (run x.1 x.2).Succeeds)
    (hfields : ∀ x ∈ p.fields, FieldSucceeds run t x) :
    (matchParts wrap (p.map run) t).Succeeds := by
  obtain ⟨leading, trailing, haligned, heq⟩ := exists_matchParts_eq hp ht htag hcount
  rw [haligned, List.forall_mem_append] at hpositional
  rw [heq]
  refine (Matching.succeeds_inOrder hpositional.1).followedBy ?_
  refine (succeeds_captureRest_map hp ht htag hcount).followedBy ?_
  refine (Matching.succeeds_inOrder hpositional.2).followedBy ?_
  exact (succeeds_matchFields hfields).followedBy (succeeds_matchNamedRest _ ht)

/-- The first aligned sub-pattern that fails is the failure. -/
theorem failsWith_matchParts_of_positional {done later : List (π × α)} {x : π × α}
    (haligned : p.aligned t.positional = done ++ x :: later)
    (hdone : ∀ x ∈ done, (run x.1 x.2).Succeeds) (h : (run x.1 x.2).FailsWith failure) :
    (matchParts wrap (p.map run) t).FailsWith failure := by
  obtain ⟨leading, trailing, heq, hparts⟩ := exists_matchParts_eq hp ht htag hcount
  rw [hparts]
  rcases element_of_append_eq (heq.symm.trans haligned) with
    ⟨before, rfl, rfl⟩ | ⟨behind, rfl⟩
  · -- it stands behind the rest marker
    rw [List.forall_mem_append] at hdone
    refine (Matching.succeeds_inOrder hdone.1).followedBy_failsWith ?_
    refine (succeeds_captureRest_map hp ht htag hcount).followedBy_failsWith ?_
    exact (Matching.failsWith_inOrder hdone.2 h).followedBy _
  · -- it stands before the marker, and what is behind is not tried
    exact (Matching.failsWith_inOrder hdone h).followedBy _

/-- When the positional members match, the failure among the fields is the failure. -/
theorem failsWith_matchParts_of_fields
    (hpositional : ∀ x ∈ p.aligned t.positional, (run x.1 x.2).Succeeds)
    (h : (matchFields t (p.fields.map fun x => (x.1, x.2.map run))).FailsWith failure) :
    (matchParts wrap (p.map run) t).FailsWith failure := by
  obtain ⟨leading, trailing, haligned, heq⟩ := exists_matchParts_eq hp ht htag hcount
  rw [haligned, List.forall_mem_append] at hpositional
  rw [heq]
  refine (Matching.succeeds_inOrder hpositional.1).followedBy_failsWith ?_
  refine (succeeds_captureRest_map hp ht htag hcount).followedBy_failsWith ?_
  exact (Matching.succeeds_inOrder hpositional.2).followedBy_failsWith (h.followedBy _)

end outcome

end TuplePattern

end TaggedTuple
