import TaggedTuple.Pattern.LayoutMatching
import TaggedTuple.Proofs.Pattern.EqualTuples

/-!
# Matching fails with an error exactly on repeated rest markers

A pattern is gone through in depth-first order, the positional parts of a tuple pattern before its
parts for fields. `Pattern.markers` lists the rest markers as they are met on the way, each with the
tuple pattern that it belongs to, and `Pattern.firstRepeated?` is the first of them that is the
second marker of its tuple pattern.

Validation reports exactly that marker (`Pattern.validate_eq`), and nothing else that a match does
ends with an error: captures of valid patterns are always built, so that an error always means a
repeated marker (`errsOnlyOn_of_match`).
-/

namespace TaggedTuple

/-! ### The markers of a pattern -/

namespace TuplePattern

variable {π ρ : Type}

/-- The positions of the rest markers among positional parts; `i` is the position of the first. -/
def restPositionsFrom (i : Nat) : List (PositionalPattern π) → List Nat
  | [] => []
  | part :: parts =>
    if part.isRest then i :: restPositionsFrom (i + 1) parts else restPositionsFrom (i + 1) parts

/-- The positions of the rest markers. -/
def restPositions (p : TuplePattern π) : List Nat := restPositionsFrom 0 p.positional

/-- The positions of the first two markers, if the marker at position `i` is the second one. -/
def secondMarker? (p : TuplePattern π) (i : Nat) : Option (Nat × Nat) :=
  match p.restPositions with
  | first :: second :: _ => if second = i then some (first, second) else none
  | _ => none

/-- Positions counted from `i` are at least `i`. -/
theorem le_of_mem_restPositionsFrom {i j : Nat} {parts : List (PositionalPattern π)}
    (h : j ∈ restPositionsFrom i parts) : i ≤ j := by
  induction parts generalizing i with
  | nil => cases h
  | cons part parts ih =>
      rw [restPositionsFrom] at h
      split_ifs at h
      · rcases List.mem_cons.mp h with rfl | h
        · exact Nat.le_refl _
        · exact Nat.le_of_succ_le (ih h)
      · exact Nat.le_of_succ_le (ih h)

/-- There are as many positions as rest markers. -/
theorem length_restPositionsFrom (i : Nat) (parts : List (PositionalPattern π)) :
    (restPositionsFrom i parts).length = parts.countP (·.isRest) := by
  induction parts generalizing i with
  | nil => rfl
  | cons part parts ih =>
      rw [restPositionsFrom, List.countP_cons]
      split_ifs
      · rw [List.length_cons, ih]
      · exact ih _

/-- At most one rest marker means at most one position of them. -/
theorem singleRest_iff_length_restPositions {p : TuplePattern π} :
    p.SingleRest ↔ p.restPositions.length ≤ 1 := by
  rw [restPositions, length_restPositionsFrom, SingleRest]

end TuplePattern

namespace Pattern

mutual

/-- The rest markers of a pattern in depth-first order: the tuple pattern that a marker belongs to,
and its position there. -/
def markers : Pattern → List (TuplePattern Pattern × Nat)
  | .wildcard => []
  | .bind _ => []
  | .literal _ => []
  | .tuple p => membersMarkers p

/-- The markers of a tuple pattern and of its sub-patterns. -/
def membersMarkers : TuplePattern Pattern → List (TuplePattern Pattern × Nat)
  | ⟨tag, positional, fields, namedRest⟩ =>
    positionalMarkers ⟨tag, positional, fields, namedRest⟩ 0 positional ++ fieldMarkers fields

/-- The markers met in positional parts of `owner`; `i` is the position of the first part. -/
def positionalMarkers (owner : TuplePattern Pattern) (i : Nat) :
    List (PositionalPattern Pattern) → List (TuplePattern Pattern × Nat)
  | [] => []
  | .sub p :: parts => p.markers ++ positionalMarkers owner (i + 1) parts
  | .rest _ :: parts => (owner, i) :: positionalMarkers owner (i + 1) parts

/-- The markers met in parts for fields. -/
def fieldMarkers :
    List (Symbol × FieldPattern Pattern) → List (TuplePattern Pattern × Nat)
  | [] => []
  | (_, .shorthand) :: parts => fieldMarkers parts
  | (_, .sub p) :: parts => p.markers ++ fieldMarkers parts

end

/-- The positions of the first two rest markers of the tuple pattern whose second marker is met
first. -/
def firstRepeated? (q : Pattern) : Option (Nat × Nat) :=
  q.markers.findSome? fun x => x.1.secondMarker? x.2

/-! ### Validation finds the first repeated marker -/

/-- What validation reports of the positions of two markers of one tuple pattern. -/
def verdict : Option (Nat × Nat) → Except PatternError Unit
  | none => .ok ()
  | some (first, second) => .error (.multipleRest first second)

/-- The first of two pairs of markers decides the verdict. -/
theorem verdict_or (a b : Option (Nat × Nat)) :
    verdict (a.or b) = (verdict a >>= fun _ => verdict b) := by
  cases a with
  | none => rfl
  | some x => rfl

/-- The verdict on markers that are met in order. -/
def judge (markers : List (TuplePattern Pattern × Nat)) : Except PatternError Unit :=
  verdict (markers.findSome? fun x => x.1.secondMarker? x.2)

/-- Markers are judged from left to right. -/
theorem judge_append (xs ys : List (TuplePattern Pattern × Nat)) :
    judge (xs ++ ys) = (judge xs >>= fun _ => judge ys) := by
  rw [judge, List.findSome?_append, verdict_or]
  rfl

/-- A pattern without a second marker is passed over. -/
theorem judge_cons_of_none {owner : TuplePattern Pattern} {i : Nat}
    (h : owner.secondMarker? i = none) (xs : List (TuplePattern Pattern × Nat)) :
    judge ((owner, i) :: xs) = judge xs := by
  rw [judge, List.findSome?_cons, h]
  rfl

/-- A pattern with a second marker is the one reported. -/
theorem judge_cons_of_some {owner : TuplePattern Pattern} {i first second : Nat}
    (h : owner.secondMarker? i = some (first, second))
    (xs : List (TuplePattern Pattern × Nat)) :
    judge ((owner, i) :: xs) = .error (.multipleRest first second) := by
  rw [judge, List.findSome?_cons, h]
  rfl

/-- Validating the parts for fields judges their markers. -/
theorem validateFields_eq_judge {parts : List (Symbol × FieldPattern Pattern)}
    (hsub : ∀ key q, (key, .sub q) ∈ parts → q.validate = judge q.markers) :
    TuplePattern.validateFields (parts.map fun (key, f) => (key, f.map validate))
      = judge (fieldMarkers parts) := by
  induction parts with
  | nil => rfl
  | cons part parts ih =>
      obtain ⟨key, part⟩ := part
      have hrest := ih fun key q hq => hsub key q (List.mem_cons_of_mem _ hq)
      cases part with
      | shorthand => exact hrest
      | sub q =>
          rw [fieldMarkers, judge_append, ← hrest, ← hsub key q List.mem_cons_self]
          rfl

/-- The markers of the owner are those that were met, at most one, and those still to come. -/
theorem validatePositional_eq_judge {owner : TuplePattern Pattern} {first : Option Nat} {i : Nat}
    {parts : List (PositionalPattern Pattern)}
    (hsub : ∀ q, .sub q ∈ parts → q.validate = judge q.markers)
    (howner : owner.restPositions = first.toList ++ TuplePattern.restPositionsFrom i parts) :
    TuplePattern.validatePositional first i (parts.map (·.map validate))
      = judge (positionalMarkers owner i parts) := by
  induction parts generalizing first i with
  | nil => rfl
  | cons part parts ih =>
      have hrest : ∀ q, .sub q ∈ parts → q.validate = judge q.markers := fun q hq =>
        hsub q (List.mem_cons_of_mem _ hq)
      cases part with
      | sub q =>
          rw [positionalMarkers, judge_append, ← ih hrest howner, ← hsub q List.mem_cons_self]
          rfl
      | rest name =>
          have hstep : TuplePattern.restPositionsFrom i (.rest name :: parts)
              = i :: TuplePattern.restPositionsFrom (i + 1) parts := rfl
          rw [hstep] at howner
          rw [positionalMarkers]
          cases first with
          | some j =>
              have hsecond : owner.secondMarker? i = some (j, i) := by
                rw [TuplePattern.secondMarker?, howner]
                exact if_pos rfl
              exact (judge_cons_of_some hsecond _).symm
          | none =>
              have hnone : owner.secondMarker? i = none := by
                rw [TuplePattern.secondMarker?, howner]
                cases hlater : TuplePattern.restPositionsFrom (i + 1) parts with
                | nil => rfl
                | cons second later =>
                    have hlt : i + 1 ≤ second :=
                      TuplePattern.le_of_mem_restPositionsFrom (hlater ▸ List.mem_cons_self)
                    exact if_neg (by omega)
              rw [judge_cons_of_none hnone]
              exact ih hrest howner

/-- Validating a pattern judges its markers, depth first. -/
theorem validate_eq_judge (q : Pattern) : q.validate = judge q.markers := by
  induction q using Pattern.induction with
  | wildcard => rfl
  | bind name => rfl
  | literal l => rfl
  | tuple p ihPositional ihFields =>
      rw [validate_tuple, markers]
      obtain ⟨tag, positional, fields, namedRest⟩ := p
      have hpositional : TuplePattern.validatePositional none 0 _ = judge _ :=
        validatePositional_eq_judge ihPositional rfl
      rw [membersMarkers, judge_append, ← validateFields_eq_judge ihFields, ← hpositional]
      rfl

/-- Validation reports the first repeated marker, and succeeds when there is none. -/
theorem validate_eq (q : Pattern) : q.validate = verdict q.firstRepeated? := q.validate_eq_judge

/-! ### Patterns inside a pattern -/

/-- A tuple pattern stands in a pattern, at any depth. -/
inductive Contains : Pattern → TuplePattern Pattern → Prop
  | here (p : TuplePattern Pattern) : Contains (.tuple p) p
  | positional {p r : TuplePattern Pattern} {q : Pattern} (hq : .sub q ∈ p.positional)
    (h : Contains q r) : Contains (.tuple p) r
  | field {p r : TuplePattern Pattern} {key : Symbol} {q : Pattern} (hq : (key, .sub q) ∈ p.fields)
    (h : Contains q r) : Contains (.tuple p) r

/-- A pattern is valid exactly when each tuple pattern in it has at most one rest marker. -/
theorem validate_eq_ok_iff {q : Pattern} :
    q.validate = .ok () ↔ ∀ r, q.Contains r → r.SingleRest := by
  induction q using Pattern.induction with
  | wildcard => exact ⟨fun _ => nofun, fun _ => rfl⟩
  | bind name => exact ⟨fun _ => nofun, fun _ => rfl⟩
  | literal l => exact ⟨fun _ => nofun, fun _ => rfl⟩
  | tuple p ihPositional ihFields =>
      rw [validate_tuple_eq, TuplePattern.validate_eq_ok_iff]
      constructor
      · rintro ⟨hsingle, hpositional, hfields⟩ r (_ | ⟨hq, h⟩ | ⟨hq, h⟩)
        · exact hsingle
        · exact (ihPositional _ hq).mp (hpositional _ hq) r h
        · exact (ihFields _ _ hq).mp (hfields _ _ hq) r h
      · intro h
        exact ⟨h p (.here p),
          fun q hq => (ihPositional q hq).mpr fun r hr => h r (.positional hq hr),
          fun key q hq => (ihFields key q hq).mpr fun r hr => h r (.field hq hr)⟩

/-- There is a first repeated marker exactly when some tuple pattern has two markers. -/
theorem firstRepeated?_ne_none_iff {q : Pattern} :
    q.firstRepeated? ≠ none ↔ ∃ r, q.Contains r ∧ 2 ≤ r.restPositions.length := by
  have hok : q.firstRepeated? = none ↔ ∀ r, q.Contains r → r.SingleRest := by
    rw [← validate_eq_ok_iff, validate_eq]
    cases q.firstRepeated? with
    | none => exact ⟨fun _ => rfl, fun _ => rfl⟩
    | some x => exact ⟨nofun, nofun⟩
  rw [Ne, hok, not_forall]
  refine exists_congr fun r => ?_
  rw [Classical.not_imp, TuplePattern.singleRest_iff_length_restPositions, Nat.not_le]
  rfl

/-! ### Errors of a match -/

/-- A result is an error exactly when a marker is repeated, and then the error names the first
repeated one. -/
structure ErrsOnlyOn {α : Type} (q : Pattern) (result : Except PatternError α) : Prop where
  error_iff : ∀ e, result = .error e ↔
    ∃ first second, q.firstRepeated? = some (first, second) ∧ e = .multipleRest first second
  ne_capture : ∀ inner, result ≠ .error (.capture inner)

/-- A result that passes on the errors of validation, and has no others, has only such errors. -/
theorem errsOnlyOn_of_validate {α : Type} {q : Pattern} {result : Except PatternError α}
    (herror : ∀ e, q.validate = .error e → result = .error e)
    (hok : q.validate = .ok () → ∃ a, result = .ok a) : q.ErrsOnlyOn result := by
  have hiff : ∀ e, result = .error e ↔
      ∃ first second, q.firstRepeated? = some (first, second) ∧ e = .multipleRest first second := by
    intro e
    have hvalidate := q.validate_eq
    cases hq : q.firstRepeated? with
    | none =>
        rw [hq] at hvalidate
        obtain ⟨a, ha⟩ := hok hvalidate
        rw [ha]
        exact ⟨nofun, nofun⟩
    | some x =>
        obtain ⟨first, second⟩ := x
        rw [hq] at hvalidate
        rw [herror _ hvalidate]
        constructor
        · intro h
          exact ⟨first, second, rfl, (Except.error.inj h).symm⟩
        · rintro ⟨i, j, heq, rfl⟩
          cases heq
          rfl
  refine ⟨hiff, fun inner h => ?_⟩
  obtain ⟨first, second, -, hcapture⟩ := (hiff _).mp h
  cases hcapture

/-- Matching a value errs only on a repeated rest marker. -/
theorem errsOnlyOn_matchValue (q : Pattern) {v : Value} (hv : v.WellFormed) {cache : LayoutCache}
    (hcache : cache.Valid) : q.ErrsOnlyOn (q.matchValue v cache).1 := by
  refine errsOnlyOn_of_validate (fun e he => ?_) fun hok => ?_
  · simp only [matchValue, he]
  · obtain ⟨outcome, cache', houtcome, -⟩ := exists_outcome_of_valid hok hv hcache
    exact ⟨outcome, by simp only [matchValue, hok, houtcome]⟩

end Pattern

namespace TuplePattern

/-- Matching a tuple errs only on a repeated rest marker. -/
theorem errsOnlyOn_matchTuple (p : TuplePattern Pattern) {t : Tuple Value}
    (ht : (Value.tuple t).WellFormed) {cache : LayoutCache} (hcache : cache.Valid) :
    (Pattern.tuple p).ErrsOnlyOn (p.matchTuple t cache).1 := by
  refine Pattern.errsOnlyOn_of_validate (fun e he => ?_) fun hok => ?_
  · rw [Pattern.validate_tuple_eq] at he
    simp only [matchTuple, he]
  · rw [Pattern.validate_tuple_eq] at hok
    exact exists_matchTuple_of_valid ht hok hcache

/-- Matching a layout errs only on a repeated rest marker. -/
theorem errsOnlyOn_matchLayout (p : TuplePattern Pattern) (l : Layout) :
    (Pattern.tuple p).ErrsOnlyOn (p.matchLayout l) := by
  refine Pattern.errsOnlyOn_of_validate (fun e he => ?_) fun hok => ?_
  · rw [Pattern.validate_tuple_eq] at he
    simp only [matchLayout, he]
  · rw [Pattern.validate_tuple_eq] at hok
    cases hplace : p.place l with
    | ok bound => exact ⟨.matched (.ofList bound), by simp only [matchLayout, hok, hplace]⟩
    | error failure => exact ⟨.failed failure, by simp only [matchLayout, hok, hplace]⟩

/-! ### Sub-patterns and their values -/

/-- Once the number of values fits, each positional sub-pattern is aligned with one of them. -/
theorem SingleRest.exists_valueIndex? {π : Type} {p : TuplePattern π} (h : p.SingleRest)
    {count : Nat} {a : Alignment} (ha : p.align count = .ok a) {i : Nat} {q : π}
    (hi : p.positional[i]? = some (.sub q)) : ∃ j, a.valueIndex? i = some j ∧ j < count := by
  have hcount : p.CountFits count := by
    by_contra hcount
    rw [align_of_not_countFits h hcount] at ha
    cases ha
  obtain rfl : p.alignment count = a := Except.ok.inj ((align_of_countFits h hcount).symm.trans ha)
  have hlt := (List.getElem?_eq_some_iff.mp hi).1
  -- only the rest marker stands where the leading sub-patterns end
  have hne : i ≠ p.leading.length := by
    rintro rfl
    rcases h.positional_cases with ⟨-, hparts, -⟩ | ⟨-, name, hparts⟩
    · rw [hparts, List.length_map] at hlt
      exact Nat.lt_irrefl _ hlt
    · rw [hparts, List.getElem?_append_right (by rw [List.length_map]), List.length_map,
        Nat.sub_self] at hi
      cases hi
  have hsome : ∃ j, (p.alignment count).valueIndex? i = some j := by
    unfold Alignment.valueIndex?
    split_ifs with hbefore heq
    · exact ⟨i, rfl⟩
    · exact absurd heq hne
    · exact ⟨_, rfl⟩
  obtain ⟨j, hj⟩ := hsome
  exact ⟨j, hj, h.valueIndex?_lt hcount hlt hj⟩

/-- Matching ends with an error exactly when a tuple pattern at some depth has two rest markers. The
error names the first two markers of the one whose second marker is met first; it is never the error
of a capture. In a valid pattern every positional sub-pattern has a value to match, or a slot. -/
theorem matching_errs_iff_repeated_rest {cache : LayoutCache} (hcache : cache.Valid) :
    (∀ (q : Pattern) (v : Value), v.WellFormed → q.ErrsOnlyOn (q.matchValue v cache).1) ∧
      (∀ (p : TuplePattern Pattern) (t : Tuple Value), (Value.tuple t).WellFormed →
        (Pattern.tuple p).ErrsOnlyOn (p.matchTuple t cache).1) ∧
      (∀ (p : TuplePattern Pattern) (l : Layout),
        (Pattern.tuple p).ErrsOnlyOn (p.matchLayout l)) ∧
      (∀ q : Pattern, q.firstRepeated? ≠ none ↔
        ∃ r, q.Contains r ∧ 2 ≤ r.restPositions.length) ∧
      ∀ q : Pattern, q.validate = .ok () → ∀ r, q.Contains r →
        ∀ i s, r.positional[i]? = some (.sub s) →
          (∀ (t : Tuple Value) (a : Alignment), t.WellFormed → r.align t.arity = .ok a →
            ∃ v, (a.valueIndex? i).bind t.at? = some v) ∧
          ∀ (l : Layout) (a : Alignment), r.align l.positional = .ok a →
            ∃ slot, a.valueIndex? i = some slot ∧ slot < l.positional := by
  refine ⟨fun q v hv => q.errsOnlyOn_matchValue hv hcache,
    fun p t ht => p.errsOnlyOn_matchTuple ht hcache, errsOnlyOn_matchLayout,
    fun q => Pattern.firstRepeated?_ne_none_iff, fun q hq r hr i s hi => ?_⟩
  have hsingle := Pattern.validate_eq_ok_iff.mp hq r hr
  refine ⟨fun t a ht ha => ?_, fun l a ha => hsingle.exists_valueIndex? ha hi⟩
  obtain ⟨j, hj, hlt⟩ := hsingle.exists_valueIndex? ha hi
  have hlt' : j < t.positional.length := by rwa [ht.positional_length]
  refine ⟨t.positional[j], ?_⟩
  rw [hj, Option.bind_some, ht.at?_eq, List.getElem?_eq_getElem hlt']

/-- A nested pattern with two markers stands before the second marker of the outer one; without it
the outer marker is reported. Next to them a valid pattern with a marker between two parts. -/
theorem matching_errs_iff_repeated_rest_of_nested_markers :
    let cache := LayoutCache.empty 0 true
    let t : Tuple Value := ⟨⟨0, 0, .ofPositional 2⟩, [.int 1, .int 2], []⟩
    let inner : TuplePattern Pattern := { positional := [.sub .wildcard, .rest none, .rest none] }
    let outer (q : Pattern) : TuplePattern Pattern :=
      { positional := [.rest none, .sub q, .rest (some ⟨7⟩)] }
    let valid : TuplePattern Pattern :=
      { positional := [.sub (.bind ⟨1⟩), .rest none, .sub (.bind ⟨2⟩)] }
    ((outer (.tuple inner)).matchTuple t cache).1 = .error (.multipleRest 1 2) ∧
      (outer .wildcard).matchLayout t.layout = .error (.multipleRest 0 2) ∧
      (∃ r, (Pattern.tuple (outer (.tuple inner))).Contains r ∧ 2 ≤ r.restPositions.length) ∧
      valid.align t.arity = .ok ⟨1, 1, 1⟩ ∧
      ∃ v, (Alignment.valueIndex? ⟨1, 1, 1⟩ 2).bind t.at? = some v := by
  intro cache t inner outer valid
  have ht : (Value.tuple t).WellFormed := by
    simp [t, Value.wellFormed_tuple_iff, Value.WellFormed.int, Tuple.members,
      Tuple.wellFormed_iff, Tuple.layout, Layout.ofPositional]
  obtain ⟨-, htuple, hlayout, hrepeated, hvalid⟩ :=
    matching_errs_iff_repeated_rest (LayoutCache.valid_empty 0 true)
  refine ⟨((htuple _ t ht).error_iff _).mpr ⟨1, 2, rfl, rfl⟩,
    ((hlayout _ t.layout).error_iff _).mpr ⟨0, 2, rfl, rfl⟩,
    (hrepeated _).mp (by decide), rfl, ?_⟩
  exact (hvalid (.tuple valid) rfl valid (.here valid) 2 _ rfl).1 t _
    (Value.wellFormed_tuple_iff.mp ht).1 rfl

end TuplePattern

end TaggedTuple
