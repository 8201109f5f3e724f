import TaggedTuple.Proofs.Pattern.EqualTuples

/-!
# A list of arms is its first arm that matches

`TuplePattern.matchArms` is described here by `TuplePattern.matchTuple` alone, one arm at a time. A
list with a malformed arm is not tried at all: its outcome is the error of the first such arm. In
any other list every arm up to the selected one was tried by itself, on the cache that the arms
before it left; an arm that failed has bound nothing, as far as the arms behind it can tell
(`TuplePattern.matchArms_selects_first`).

Whether an arm rejects a tuple, and what it binds, does not depend on the cache (`Rejects`,
`MatchesAs`), so the arms may be compared on a cache of their own each.
-/

namespace TaggedTuple

namespace TuplePattern

/-! ### One arm -/

/-- Matched by itself, the pattern fails on the tuple, whatever the cache holds. -/
def Rejects (p : TuplePattern Pattern) (t : Tuple Value) : Prop :=
  ∀ cache : LayoutCache, cache.Valid → ∃ failure, (p.matchTuple t cache).1 = .ok (.failed failure)

/-- Matched by itself, the pattern gives these bindings up to equality of the values, whatever the
cache holds. -/
def MatchesAs (p : TuplePattern Pattern) (t : Tuple Value) (b : Bindings Value) : Prop :=
  ∀ cache : LayoutCache, cache.Valid →
    ∃ b', (p.matchTuple t cache).1 = .ok (.matched b') ∧ b.Agree b'

/-- An arm that matches does not reject. -/
theorem MatchesAs.not_rejects {p : TuplePattern Pattern} {t : Tuple Value} {b : Bindings Value}
    (h : p.MatchesAs t b) {cache : LayoutCache} (hc : cache.Valid) : ¬p.Rejects t := by
  intro hrejects
  obtain ⟨b', hmatched, -⟩ := h cache hc
  obtain ⟨failure, hfailed⟩ := hrejects cache hc
  cases hmatched.symm.trans hfailed

/-- One match of a valid pattern decides how it ends on every cache. -/
theorem matchTuple_cases {p : TuplePattern Pattern} (hp : p.validate = .ok ()) {t : Tuple Value}
    (ht : (Value.tuple t).WellFormed) {cache : LayoutCache} (hc : cache.Valid) :
    ∃ cache', cache'.Valid ∧
      ((p.Rejects t ∧ ∃ failure, p.matchTuple t cache = (.ok (.failed failure), cache')) ∨
        ∃ b, p.MatchesAs t b ∧ p.matchTuple t cache = (.ok (.matched b), cache')) := by
  have hself : t.Agree t := Value.Agree.refl ht
  obtain ⟨outcome, cache', hrun, hc'⟩ := exists_outcome_of_valid ht hp hc
  rw [← matchTuple_of_valid hp] at hrun
  refine ⟨cache', hc', ?_⟩
  have hother : ∀ d : LayoutCache, d.Valid →
      ∃ outcome', (p.matchTuple t d).1 = .ok outcome' ∧ outcome.Agree outcome' := by
    intro d hd
    exact (matchTuple_agree hc hd hself p).exists_of_eq_ok (congrArg Prod.fst hrun)
  cases outcome with
  | failed failure =>
      refine .inl ⟨fun d hd => ?_, failure, hrun⟩
      obtain ⟨outcome', houtcome, hagree⟩ := hother d hd
      cases hagree
      exact ⟨failure, houtcome⟩
  | matched b =>
      refine .inr ⟨b, fun d hd => ?_, hrun⟩
      obtain ⟨outcome', houtcome, hagree⟩ := hother d hd
      cases hagree with
      | matched hb => exact ⟨_, houtcome, hb⟩

/-! ### Validation comes first -/

/-- The error is that of the first arm that is malformed. -/
def FirstMalformed (arms : List (TuplePattern Pattern)) (e : PatternError) : Prop :=
  ∃ (i : Nat) (p : TuplePattern Pattern), arms[i]? = some p ∧ p.validate = .error e ∧
    ∀ j < i, ∀ q, arms[j]? = some q → q.validate = .ok ()

/-- Either all arms are valid or the first malformed one is reported. -/
theorem validateAll_cases (arms : List (TuplePattern Pattern)) :
    (validateAll arms = .ok () ∧ ∀ p ∈ arms, p.validate = .ok ()) ∨
      ∃ e, validateAll arms = .error e ∧ FirstMalformed arms e := by
  induction arms with
  | nil => exact .inl ⟨rfl, by simp⟩
  | cons p arms ih =>
      rw [validateAll]
      cases hp : p.validate with
      | error e => exact .inr ⟨e, rfl, 0, p, rfl, hp, by simp⟩
      | ok _ =>
          rcases ih with ⟨hall, harms⟩ | ⟨e, hall, i, q, hq, hmalformed, hearlier⟩
          · exact .inl ⟨hall, List.forall_mem_cons.mpr ⟨hp, harms⟩⟩
          · refine .inr ⟨e, hall, i + 1, q, hq, hmalformed, fun j hj r hr => ?_⟩
            cases j with
            | zero =>
                obtain rfl : p = r := Option.some.inj hr
                exact hp
            | succ j => exact hearlier j (Nat.lt_of_succ_lt_succ hj) r hr

/-! ### The arms in turn -/

/-- The cache after patterns were matched against a tuple, one after the other. -/
def cacheAfter (t : Tuple Value) (ps : List (TuplePattern Pattern)) (cache : LayoutCache) :
    LayoutCache :=
  ps.foldl (fun cache p => (p.matchTuple t cache).2) cache

/-- The arm that is found is the first one that does not reject the tuple. Its bindings are those
that the arm gives by itself on the cache that the arms before it left, and up to equality those
that it gives on any cache. -/
structure FirstMatch (arms : List (TuplePattern Pattern)) (t : Tuple Value) (cache : LayoutCache)
    (found : ArmMatch Value) : Prop where
  matched : ∃ p, arms[found.arm]? = some p ∧
    (p.matchTuple t (cacheAfter t (arms.take found.arm) cache)).1 = .ok (.matched found.bindings) ∧
    p.MatchesAs t found.bindings
  earlier : ∀ j < found.arm, ∀ q, arms[j]? = some q → q.Rejects t

namespace FirstMatch

variable {arms : List (TuplePattern Pattern)} {t : Tuple Value} {cache : LayoutCache}
  {found found' : ArmMatch Value}

/-- A rejecting arm in front moves the first match back by one. -/
theorem cons (h : FirstMatch arms t cache found) {p : TuplePattern Pattern} (hp : p.Rejects t)
    {cache₀ : LayoutCache} (hcache : (p.matchTuple t cache₀).2 = cache) :
    FirstMatch (p :: arms) t cache₀ { found with arm := found.arm + 1 } where
  matched := by
    obtain ⟨q, hq, hmatched, hmatches⟩ := h.matched
    subst hcache
    exact ⟨q, hq, hmatched, hmatches⟩
  earlier j hj q hq := by
    cases j with
    | zero =>
        obtain rfl : p = q := Option.some.inj hq
        exact hp
    | succ j => exact h.earlier j (Nat.lt_of_succ_lt_succ hj) q hq

/-- An arm that matches is not among those that reject. -/
theorem not_forall_rejects (h : FirstMatch arms t cache found) (hc : cache.Valid) :
    ¬∀ p ∈ arms, p.Rejects t := by
  intro hrejects
  obtain ⟨p, hp, -, hmatches⟩ := h.matched
  exact hmatches.not_rejects hc (hrejects p (List.mem_of_getElem? hp))

/-- No first match comes after another. -/
theorem arm_le (h : FirstMatch arms t cache found) (h' : FirstMatch arms t cache found')
    (hc : cache.Valid) : found.arm ≤ found'.arm := by
  by_contra hlt
  obtain ⟨p, hp, -, hmatches⟩ := h'.matched
  exact hmatches.not_rejects hc (h.earlier _ (Nat.lt_of_not_le hlt) p hp)

/-- There is one first match. -/
theorem eq (h : FirstMatch arms t cache found) (h' : FirstMatch arms t cache found')
    (hc : cache.Valid) : found = found' := by
  have harm := Nat.le_antisymm (h.arm_le h' hc) (h'.arm_le h hc)
  obtain ⟨p, hp, hmatched, -⟩ := h.matched
  obtain ⟨p', hp', hmatched', -⟩ := h'.matched
  rw [← harm] at hp' hmatched'
  obtain rfl : p = p' := Option.some.inj (hp.symm.trans hp')
  cases found
  cases found'
  cases hmatched.symm.trans hmatched'
  cases harm
  rfl

end FirstMatch

section valid

variable {t : Tuple Value} (ht : (Value.tuple t).WellFormed)
include ht

/-- Valid arms are tried until one matches. -/
theorem tryArms_cases {arms : List (TuplePattern Pattern)}
    (harms : ∀ p ∈ arms, p.validate = .ok ()) (i : Nat) {cache : LayoutCache} (hc : cache.Valid) :
    ((∀ p ∈ arms, p.Rejects t) ∧ (tryArms t i arms cache).1 = .ok none) ∨
      ∃ found, FirstMatch arms t cache found ∧
        (tryArms t i arms cache).1 = .ok (some { found with arm := i + found.arm }) := by
  induction arms generalizing i cache with
  | nil => exact .inl ⟨by simp, rfl⟩
  | cons p arms ih =>
      rw [List.forall_mem_cons] at harms
      rw [tryArms, ← matchTuple_of_valid harms.1]
      obtain ⟨cache', hc', ⟨hrejects, failure, hrun⟩ | ⟨b, hmatches, hrun⟩⟩ :=
        matchTuple_cases harms.1 ht hc
      · simp only [hrun]
        rcases ih harms.2 (i + 1) hc' with ⟨hall, hnone⟩ | ⟨found, hfirst, hsome⟩
        · exact .inl ⟨List.forall_mem_cons.mpr ⟨hrejects, hall⟩, hnone⟩
        · refine .inr ⟨_, hfirst.cons hrejects (congrArg Prod.snd hrun), ?_⟩
          rw [hsome, Nat.add_right_comm, Nat.add_assoc]
      · simp only [hrun]
        exact .inr ⟨⟨0, b⟩, ⟨⟨p, rfl, congrArg Prod.fst hrun, hmatches⟩, by simp⟩, rfl⟩

/-- The outcome of a list of arms, told by its arms one at a time. If an arm is malformed, the
outcome is the error of the first such arm, even if an earlier arm would match. Otherwise it is the
first arm that matches, with the bindings of that arm alone, or none when all arms fail. And a tuple
pattern that is matched as a pattern ends as the tuple pattern does. -/
theorem matchArms_selects_first (arms : List (TuplePattern Pattern)) {cache : LayoutCache}
    (hc : cache.Valid) :
    ((∃ p ∈ arms, p.validate ≠ .ok ()) →
      ∃ e, FirstMalformed arms e ∧ matchArms arms t cache = (.error e, cache)) ∧
    ((∀ p ∈ arms, p.validate = .ok ()) →
      ((matchArms arms t cache).1 = .ok none ↔ ∀ p ∈ arms, p.Rejects t) ∧
      ∀ found, (matchArms arms t cache).1 = .ok (some found) ↔
        FirstMatch arms t cache found) ∧
    ∀ p : TuplePattern Pattern,
      (Pattern.tuple p).matchValue (.tuple t) cache = p.matchTuple t cache := by
  refine ⟨?_, ?_, ?_⟩
  · rintro ⟨p, hp, hmalformed⟩
    rcases validateAll_cases arms with ⟨-, hvalid⟩ | ⟨e, hall, hfirst⟩
    · exact absurd (hvalid p hp) hmalformed
    · refine ⟨e, hfirst, ?_⟩
      simp only [matchArms, hall]
  · intro harms
    have hrun : matchArms arms t cache = tryArms t 0 arms cache := by
      simp only [matchArms, validateAll_of_valid harms]
    rw [hrun]
    rcases tryArms_cases ht harms 0 hc with ⟨hrejects, hnone⟩ | ⟨found, hfirst, hsome⟩
    · rw [hnone]
      refine ⟨⟨fun _ => hrejects, fun _ => rfl⟩, fun found => ⟨fun hnot => ?_, fun hfound => ?_⟩⟩
      · cases hnot
      · exact absurd hrejects (hfound.not_forall_rejects hc)
    · rw [Nat.zero_add] at hsome
      rw [hsome]
      refine ⟨⟨fun hnot => ?_, fun hrejects => ?_⟩, fun found' => ⟨?_, fun hfound => ?_⟩⟩
      · cases hnot
      · exact absurd hrejects (hfirst.not_forall_rejects hc)
      · rintro ⟨⟩
        exact hfirst
      · rw [hfirst.eq hfound hc]
  · intro p
    rw [Pattern.matchValue, Pattern.validate_tuple_eq, Pattern.matchInto_tuple]
    rfl

end valid

/-- On `(1, 2)`, the arm `(a, ...b, 9)` binds `a` and captures a rest before it fails, and the arm
`(c, ...)` matches. With a malformed arm behind it, it is not tried. -/
theorem matchArms_selects_first_of_halfway_failure :
    let t : Tuple Value := ⟨⟨0, 0, .ofPositional 2⟩, [.int 1, .int 2], []⟩
    let halfway : TuplePattern Pattern :=
      { positional := [.sub (.bind ⟨1⟩), .rest (some ⟨2⟩), .sub (.literal (.int 9))] }
    let second : TuplePattern Pattern := { positional := [.sub (.bind ⟨3⟩), .rest none] }
    let malformed : TuplePattern Pattern := { positional := [.rest none, .rest none] }
    let c := LayoutCache.empty 0 true
    (∃ found, (matchArms [halfway, second] t c).1 = .ok (some found) ∧ found.arm = 1 ∧
      found.bindings.entries = [(⟨3⟩, .int 1)] ∧ halfway.Rejects t ∧
      second.MatchesAs t found.bindings) ∧
    ∃ e, matchArms [second, malformed] t c = (.error e, c) := by
  intro t halfway second malformed c
  have ht : (Value.tuple t).WellFormed := by
    simp [t, Value.wellFormed_tuple_iff, Value.WellFormed.int, Tuple.members, Tuple.wellFormed_iff,
      Tuple.layout, Layout.ofPositional]
  have hc : c.Valid := LayoutCache.valid_empty 0 true
  obtain ⟨-, hselect, -⟩ := matchArms_selects_first ht [halfway, second] hc
  obtain ⟨hmalformed, -, -⟩ := matchArms_selects_first ht [second, malformed] hc
  have hrun : (matchArms [halfway, second] t c).1 = .ok (some ⟨1, ⟨[(⟨3⟩, .int 1)]⟩⟩) := rfl
  have hvalid : ∀ p ∈ [halfway, second], p.validate = .ok () := by
    intro p hp
    rcases List.mem_pair.mp hp with rfl | rfl
    · rfl
    · rfl
  obtain ⟨⟨p, hp, -, hmatches⟩, hearlier⟩ := ((hselect hvalid).2 _).mp hrun
  obtain rfl : second = p := Option.some.inj hp
  have hrest : malformed.validate = .error (.multipleRest 0 1) := rfl
  obtain ⟨e, -, herror⟩ := hmalformed ⟨malformed, by simp, by simp [hrest]⟩
  exact ⟨⟨_, hrun, rfl, rfl, hearlier 0 Nat.zero_lt_one halfway rfl, hmatches⟩, e, herror⟩

end TuplePattern

end TaggedTuple
