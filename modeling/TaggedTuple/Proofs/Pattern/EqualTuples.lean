import TaggedTuple.Proofs.Pattern.Semantics
import TaggedTuple.Proofs.Transparency.Matching

/-!
# Matching does not tell equal tuples apart

Two runs of a match on equal tuples go alike (`TuplePattern.matchTuple_agree`,
`TuplePattern.matchArms_agree`), but that leaves it open whether they end with an error of the
pattern. Valid patterns are matched without one, by the semantics of patterns: a value fits, or
there is a first violation. The same holds of a list of arms by induction, one arm after the other.

Together: valid patterns and lists of arms have the same outcome on equal tuples, whatever caches
serve the captures (`TuplePattern.matching_respects_equality`).
-/

namespace TaggedTuple

/-! ### Valid patterns cause no errors -/

/-- A valid pattern has an outcome on every value, without an error. -/
theorem Pattern.exists_outcome_of_valid {p : Pattern} (hp : p.validate = .ok ()) {v : Value}
    (hv : v.WellFormed) {cache : LayoutCache} (hcache : cache.Valid) :
    ∃ outcome cache', (p.matchInto v).outcome cache = (.ok outcome, cache') ∧ cache'.Valid := by
  rcases p.fits_or_firstViolation v with hfits | ⟨failure, hviolation⟩
  · obtain ⟨bindings, cache', houtcome, hcache'⟩ := (hfits.succeeds hp hv).exists_outcome hcache
    exact ⟨_, cache', houtcome, hcache'⟩
  · obtain ⟨cache', houtcome, hcache'⟩ := (hviolation.failsWith hp hv).exists_outcome hcache
    exact ⟨_, cache', houtcome, hcache'⟩

namespace TuplePattern

section valid

variable {t : Tuple Value} (ht : (Value.tuple t).WellFormed)
include ht

/-- A valid tuple pattern has an outcome on every tuple, without an error. -/
theorem exists_outcome_of_valid {p : TuplePattern Pattern} (hp : p.validate = .ok ())
    {cache : LayoutCache} (hcache : cache.Valid) :
    ∃ outcome cache', (p.matchInto t).outcome cache = (.ok outcome, cache') ∧ cache'.Valid := by
  have hvalid : (Pattern.tuple p).validate = .ok () := (Pattern.validate_tuple_eq p).trans hp
  rw [matchInto_eq_matchInto_tuple]
  exact Pattern.exists_outcome_of_valid hvalid ht hcache

/-- Matching a tuple with a valid pattern does not err. -/
theorem exists_matchTuple_of_valid {p : TuplePattern Pattern} (hp : p.validate = .ok ())
    {cache : LayoutCache} (hcache : cache.Valid) :
    ∃ outcome, (p.matchTuple t cache).1 = .ok outcome := by
  obtain ⟨outcome, cache', houtcome, -⟩ := exists_outcome_of_valid ht hp hcache
  refine ⟨outcome, ?_⟩
  rw [matchTuple_of_valid hp, houtcome]

/-- Trying valid arms in order does not err. -/
theorem exists_tryArms_of_valid {arms : List (TuplePattern Pattern)}
    (harms : ∀ p ∈ arms, p.validate = .ok ()) (i : Nat) {cache : LayoutCache}
    (hcache : cache.Valid) : ∃ found, (tryArms t i arms cache).1 = .ok found := by
  induction arms generalizing i cache with
  | nil => exact ⟨none, rfl⟩
  | cons p arms ih =>
      obtain ⟨outcome, cache', houtcome, hcache'⟩ :=
        exists_outcome_of_valid ht (harms p List.mem_cons_self) hcache
      rw [tryArms, houtcome]
      cases outcome with
      | matched bindings => exact ⟨_, rfl⟩
      | failed failure =>
          exact ih (fun q hq => harms q (List.mem_cons_of_mem _ hq)) (i + 1) hcache'

omit ht in
/-- Valid arms pass validation together. -/
theorem validateAll_of_valid {arms : List (TuplePattern Pattern)}
    (harms : ∀ p ∈ arms, p.validate = .ok ()) : validateAll arms = .ok () := by
  induction arms with
  | nil => rfl
  | cons p arms ih =>
      rw [validateAll, harms p List.mem_cons_self]
      exact ih fun q hq => harms q (List.mem_cons_of_mem _ hq)

/-- Matching with valid arms does not err. -/
theorem exists_matchArms_of_valid {arms : List (TuplePattern Pattern)}
    (harms : ∀ p ∈ arms, p.validate = .ok ()) {cache : LayoutCache} (hcache : cache.Valid) :
    ∃ found, (matchArms arms t cache).1 = .ok found := by
  simp only [matchArms, validateAll_of_valid harms]
  exact exists_tryArms_of_valid ht harms 0 hcache

end valid

end TuplePattern

/-- A result that is no error is matched by a related one. -/
theorem CachedRel.exists_of_eq_ok {ε δ α β : Type} {re : ε → δ → Prop} {r : α → β → Prop}
    {x : Except ε α × LayoutCache} {y : Except δ β × LayoutCache}
    (h : CachedRel (ExceptRel re r) x y) {a : α} (ha : x.1 = .ok a) :
    ∃ b, y.1 = .ok b ∧ r a b := by
  have hresult := h.result
  rw [ha] at hresult
  generalize y.1 = result at hresult ⊢
  cases hresult with
  | ok hab => exact ⟨_, rfl, hab⟩

/-! ### Equal tuples -/

namespace TuplePattern

/-- Equal tuples are matched alike by valid patterns: with the same failure, or with the same names
in the same order bound to equal values. A list of arms selects the same arm on both. Neither the
order in which the tuples declare their fields nor what the caches hold makes a difference. -/
theorem matching_respects_equality {t u : Tuple Value} (ht : (Value.tuple t).WellFormed)
    (hu : (Value.tuple u).WellFormed) (htu : (t == u) = true) {c d : LayoutCache} (hc : c.Valid)
    (hd : d.Valid) :
    (∀ p : TuplePattern Pattern, p.validate = .ok () →
      ∃ x y, (p.matchTuple t c).1 = .ok x ∧ (p.matchTuple u d).1 = .ok y ∧ x.Agree y) ∧
    ∀ arms : List (TuplePattern Pattern), (∀ p ∈ arms, p.validate = .ok ()) →
      ∃ x y, (matchArms arms t c).1 = .ok x ∧ (matchArms arms u d).1 = .ok y ∧
        Option.Rel ArmMatch.Agree x y := by
  have hagree : t.Agree u := ⟨ht, hu, by rwa [Value.tuple_beq_tuple]⟩
  constructor
  · intro p hp
    obtain ⟨x, hx⟩ := exists_matchTuple_of_valid ht hp hc
    obtain ⟨y, hy, hxy⟩ := (matchTuple_agree hc hd hagree p).exists_of_eq_ok hx
    exact ⟨x, y, hx, hy, hxy⟩
  · intro arms harms
    obtain ⟨x, hx⟩ := exists_matchArms_of_valid ht harms hc
    obtain ⟨y, hy, hxy⟩ := (matchArms_agree hc hd hagree arms).exists_of_eq_ok hx
    exact ⟨x, y, hx, hy, hxy⟩

/-- Nested records whose fields are declared the other way around in one of them, all captured by a
named rest: once with a cache that keeps the reversed order, once with one that keeps nothing. -/
theorem matching_respects_equality_of_reordered_fields :
    let inner : Tuple Value := ⟨⟨0, 0, .ascendingPair 0⟩, [], [.int 7, .str "a"]⟩
    let inner' : Tuple Value := ⟨⟨0, 1, .descendingPair 0⟩, [], [.str "a", .int 7]⟩
    let t : Tuple Value := ⟨⟨0, 0, .ascendingPair 0⟩, [], [.int 1, .tuple inner]⟩
    let u : Tuple Value := ⟨⟨0, 1, .descendingPair 0⟩, [], [.tuple inner', .int 1]⟩
    let c := ((LayoutCache.empty 2 true).construct 0 [⟨2⟩, ⟨1⟩] none).2
    let d := LayoutCache.empty 3 false
    let tagged : TuplePattern Pattern := { tag := some (.tag ⟨5⟩) }
    let p : TuplePattern Pattern := { namedRest := some ⟨6⟩ }
    (t == u) = true ∧ tagged.validate = .ok () ∧ p.validate = .ok () ∧
      (∃ x y, (p.matchTuple t c).1 = .ok x ∧ (p.matchTuple u d).1 = .ok y ∧ x.Agree y) ∧
      ∃ x y, (matchArms [tagged, p] t c).1 = .ok x ∧ (matchArms [tagged, p] u d).1 = .ok y ∧
        Option.Rel ArmMatch.Agree x y := by
  intro inner inner' t u c d tagged p
  have hwf : (Value.tuple t).WellFormed ∧ (Value.tuple u).WellFormed := by
    simp [t, u, inner, inner', Value.wellFormed_tuple_iff, Value.WellFormed.int,
      Value.WellFormed.str, Tuple.members, Tuple.wellFormed_iff, Tuple.layout,
      Layout.ascendingPair, Layout.descendingPair]
  have htu : (t == u) = true := by decide
  have hc : c.Valid := (LayoutCache.valid_empty 2 true).construct 0 _ none
  have hd : d.Valid := LayoutCache.valid_empty 3 false
  obtain ⟨htuple, harms⟩ := matching_respects_equality hwf.1 hwf.2 htu hc hd
  refine ⟨htu, rfl, rfl, htuple p rfl, harms [tagged, p] fun q hq => ?_⟩
  rcases List.mem_pair.mp hq with rfl | rfl
  · rfl
  · rfl

end TuplePattern

end TaggedTuple
