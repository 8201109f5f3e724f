import TaggedTuple.Proofs.Pattern.Names

/-!
# Binders do not decide a match

`TuplePattern.erase` takes the binders out of a pattern, at every depth: a name becomes a wildcard,
a field in shorthand gets a wildcard as its sub-pattern, and the rests are no longer captured. What
is left says the same about a value, condition by condition and in the same order, so the values
that fit are the same (`Pattern.Fits.erase`) and the first violation is the same on all others
(`Pattern.FirstViolation.erase`).

Hence patterns with one erasure give one verdict (`TuplePattern.verdict_ignores_binders`), although
captures slice and project tuples and register layouts in the middle of a match.
-/

namespace TaggedTuple

variable {α π : Type}

/-! ### Erasing the outermost binders -/

namespace PositionalPattern

/-- The part, with a rest marker that captures nothing. -/
def unnamed : PositionalPattern π → PositionalPattern π
  | .sub p => .sub p
  | .rest _ => .rest none

/-- Dropping the name of a rest marker keeps the marker. -/
@[simp]
theorem isRest_unnamed (part : PositionalPattern π) : part.unnamed.isRest = part.isRest := by
  cases part <;> rfl

/-- Dropping the name of a rest marker keeps the sub-patterns. -/
@[simp]
theorem sub?_unnamed (part : PositionalPattern π) : part.unnamed.sub? = part.sub? := by
  cases part <;> rfl

/-- Only a sub-pattern is left as a sub-pattern. -/
@[simp]
theorem unnamed_eq_sub_iff {part : PositionalPattern π} {q : π} :
    part.unnamed = .sub q ↔ part = .sub q := by
  cases part <;> simp [unnamed]

end PositionalPattern

namespace FieldPattern

/-- The part, with a sub-pattern in the place of a shorthand. -/
def expand (q : π) : FieldPattern π → FieldPattern π
  | .shorthand => .sub q
  | .sub p => .sub p

/-- Expanding shorthands adds the given sub-pattern in their place only. -/
theorem expand_eq_sub_iff {part : FieldPattern π} {q p : π} :
    part.expand q = .sub p ↔ part = .sub p ∨ part = .shorthand ∧ q = p := by
  cases part <;> simp [expand]

end FieldPattern

namespace TuplePattern

/-- The pattern that binds nothing besides what its sub-patterns bind, with a sub-pattern for the
fields in shorthand. -/
def unnamed (q : π) (p : TuplePattern π) : TuplePattern π :=
  { tag := p.tag, positional := p.positional.map (·.unnamed),
    fields := p.fields.map fun x => (x.1, x.2.expand q), namedRest := none }

section unnamed

variable (q : π) (p : TuplePattern π)

/-- The sub-patterns keep their values. -/
theorem aligned_unnamed (values : List α) : (p.unnamed q).aligned values = p.aligned values := by
  simp [aligned, leading, trailing, unnamed, List.takeWhile_map, List.dropWhile_map,
    List.filterMap_map, Function.comp_def]

/-- The rest markers stay where they are. -/
theorem restFlags_unnamed : (p.unnamed q).restFlags = p.restFlags := by
  simp [restFlags, unnamed, Function.comp_def]

/-- The positional sub-patterns stay. -/
theorem sub_mem_positional_unnamed_iff {p' : π} :
    .sub p' ∈ (p.unnamed q).positional ↔ .sub p' ∈ p.positional := by
  simp [unnamed]

/-- The sub-patterns for fields stay, with the given one for each shorthand. -/
theorem sub_mem_fields_unnamed_iff {key : Symbol} {p' : π} :
    (key, .sub p') ∈ (p.unnamed q).fields ↔
      (key, .sub p') ∈ p.fields ∨ (key, .shorthand) ∈ p.fields ∧ q = p' := by
  simp only [unnamed, List.mem_map, Prod.mk.injEq, FieldPattern.expand_eq_sub_iff]
  constructor
  · rintro ⟨⟨key', part⟩, hmem, rfl, rfl | ⟨rfl, hq⟩⟩
    · exact .inl hmem
    · exact .inr ⟨hmem, hq⟩
  · rintro (hmem | ⟨hmem, hq⟩)
    · exact ⟨_, hmem, rfl, .inl rfl⟩
    · exact ⟨_, hmem, rfl, .inr ⟨rfl, hq⟩⟩

end unnamed

end TuplePattern

/-! ### Erasing the binders at every depth -/

namespace Pattern

mutual

/-- The pattern without its binders. -/
def erase : Pattern → Pattern
  | .wildcard => .wildcard
  | .bind _ => .wildcard
  | .literal l => .literal l
  | .tuple p => .tuple (eraseMembers p)

/-- The tuple pattern without its binders, those of its sub-patterns included. -/
def eraseMembers : TuplePattern Pattern → TuplePattern Pattern
  | ⟨tag, positional, fields, _⟩ =>
    ⟨tag, eraseEachPositional positional, eraseEachField fields, none⟩

/-- The positional parts without their binders. -/
def eraseEachPositional : List (PositionalPattern Pattern) → List (PositionalPattern Pattern)
  | [] => []
  | .sub p :: rest => .sub p.erase :: eraseEachPositional rest
  | .rest _ :: rest => .rest none :: eraseEachPositional rest

/-- The parts for fields without their binders. -/
def eraseEachField :
    List (Symbol × FieldPattern Pattern) → List (Symbol × FieldPattern Pattern)
  | [] => []
  | (key, .shorthand) :: rest => (key, .sub .wildcard) :: eraseEachField rest
  | (key, .sub p) :: rest => (key, .sub p.erase) :: eraseEachField rest

end

mutual

/-- Nothing is left that binds a name. -/
theorem boundNames_erase : ∀ p : Pattern, p.erase.boundNames = []
  | .wildcard => rfl
  | .bind _ => rfl
  | .literal _ => rfl
  | .tuple ⟨_, positional, fields, _⟩ => by
    rw [erase, eraseMembers, boundNames, positionalNames_eraseEach positional,
      fieldNames_eraseEach fields]
    rfl

/-- Erased positional parts bind no name. -/
theorem positionalNames_eraseEach : ∀ parts : List (PositionalPattern Pattern),
    positionalNames (eraseEachPositional parts) = []
  | [] => rfl
  | .sub p :: rest => by
    rw [eraseEachPositional, positionalNames, boundNames_erase p, positionalNames_eraseEach rest,
      List.nil_append]
  | .rest _ :: rest => by
    rw [eraseEachPositional, positionalNames, positionalNames_eraseEach rest]
    rfl

/-- Erased parts for fields bind no name. -/
theorem fieldNames_eraseEach : ∀ parts : List (Symbol × FieldPattern Pattern),
    fieldNames (eraseEachField parts) = []
  | [] => rfl
  | (_, .shorthand) :: rest => by
    rw [eraseEachField, fieldNames, fieldNames_eraseEach rest]
    rfl
  | (_, .sub p) :: rest => by
    rw [eraseEachField, fieldNames, boundNames_erase p, fieldNames_eraseEach rest,
      List.nil_append]

end

/-- Erasing positional parts, as a map. -/
theorem eraseEachPositional_eq_map (parts : List (PositionalPattern Pattern)) :
    eraseEachPositional parts = parts.map fun part => part.unnamed.map erase := by
  induction parts with
  | nil => rfl
  | cons part rest ih =>
      cases part <;> rw [eraseEachPositional, ih, List.map_cons] <;> rfl

/-- The part for a field without its binders. -/
def eraseField (x : Symbol × FieldPattern Pattern) : Symbol × FieldPattern Pattern :=
  (x.1, (x.2.expand .wildcard).map erase)

/-- Erasing parts for fields, as a map. -/
theorem eraseEachField_eq_map (parts : List (Symbol × FieldPattern Pattern)) :
    eraseEachField parts = parts.map eraseField := by
  induction parts with
  | nil => rfl
  | cons part rest ih =>
      obtain ⟨key, part⟩ := part
      cases part with
      | shorthand =>
          rw [eraseEachField, ih, List.map_cons, eraseField, FieldPattern.expand, FieldPattern.map,
            erase]
      | sub q =>
          rw [eraseEachField, ih, List.map_cons, eraseField, FieldPattern.expand, FieldPattern.map]

end Pattern

/-- The tuple pattern without its binders. -/
def TuplePattern.erase (p : TuplePattern Pattern) : TuplePattern Pattern := Pattern.eraseMembers p

/-- A wildcard has no binder to erase. -/
@[simp]
theorem Pattern.erase_wildcard : erase .wildcard = .wildcard := by rw [erase]

/-- A binder is erased to a wildcard. -/
@[simp]
theorem Pattern.erase_bind (name : Symbol) : erase (.bind name) = .wildcard := by rw [erase]

/-- A literal has no binder to erase. -/
@[simp]
theorem Pattern.erase_literal (l : Literal) : erase (.literal l) = .literal l := by rw [erase]

/-- A tuple pattern is erased part by part. -/
@[simp]
theorem Pattern.erase_tuple (p : TuplePattern Pattern) : erase (.tuple p) = .tuple p.erase := by
  rw [erase, TuplePattern.erase]

namespace TuplePattern

open Pattern (eraseField)

variable (p : TuplePattern Pattern)

/-- Erasing drops the names of the pattern, then erases the sub-patterns. -/
theorem erase_eq : p.erase = (p.unnamed .wildcard).map Pattern.erase := by
  obtain ⟨tag, positional, fields, namedRest⟩ := p
  rw [erase, Pattern.eraseMembers, Pattern.eraseEachPositional_eq_map,
    Pattern.eraseEachField_eq_map]
  simp [map, unnamed, Function.comp_def, eraseField]

/-- Erasing keeps the tag requirement. -/
theorem tag_erase : p.erase.tag = p.tag := by rw [erase_eq, map, unnamed]

/-- Erasing goes over the parts for fields one by one. -/
theorem fields_erase : p.erase.fields = p.fields.map eraseField := by
  obtain ⟨tag, positional, fields, namedRest⟩ := p
  rw [erase, Pattern.eraseMembers, Pattern.eraseEachField_eq_map]

/-- Erasing leaves the values that sub-patterns are aligned with. -/
theorem aligned_erase (values : List α) :
    p.erase.aligned values = (p.aligned values).map (Prod.map Pattern.erase id) := by
  rw [erase_eq, aligned_map, aligned_unnamed]

/-- Erasing keeps the rest markers in place. -/
theorem restFlags_erase : p.erase.restFlags = p.restFlags := by
  rw [erase_eq, restFlags_map, restFlags_unnamed]

/-- Erasing keeps which numbers of values fit. -/
theorem countFits_erase {count : Nat} : p.erase.CountFits count ↔ p.CountFits count :=
  countFits_iff_of_restFlags p.restFlags_erase

/-- Erasing keeps which tags fit. -/
theorem tagFits_erase {found : Option Symbol} : p.erase.TagFits found ↔ p.TagFits found := by
  rw [TagFits, TagFits, tag_erase]

end TuplePattern

/-! ### The same conditions -/

namespace Pattern

/-- Markers stay where they are. -/
theorem validate_erase (p : Pattern) : p.erase.validate = .ok () ↔ p.validate = .ok () := by
  induction p using Pattern.induction with
  | wildcard => rw [erase_wildcard]
  | bind name => rw [erase_bind, validate, validate]
  | literal l => rw [erase_literal]
  | tuple p ihPositional ihFields =>
      rw [erase_tuple, validate_tuple_eq, validate_tuple_eq, TuplePattern.validate_eq_ok_iff,
        TuplePattern.validate_eq_ok_iff,
        TuplePattern.singleRest_iff_of_restFlags p.restFlags_erase, TuplePattern.erase_eq]
      refine and_congr_right fun _ => and_congr ?_ ?_
      · simp only [TuplePattern.sub_mem_positional_map_iff,
          TuplePattern.sub_mem_positional_unnamed_iff, forall_exists_index, and_imp,
          forall_apply_eq_imp_iff₂]
        exact forall₂_congr ihPositional
      · simp only [TuplePattern.sub_mem_fields_map_iff, TuplePattern.sub_mem_fields_unnamed_iff,
          forall_exists_index, and_imp, forall_apply_eq_imp_iff₂]
        constructor
        · intro h key q hq
          exact (ihFields key q hq).mp (h key q (.inl hq))
        · rintro h key q (hq | ⟨-, rfl⟩)
          · exact (ihFields key q hq).mpr (h key q hq)
          · rw [erase_wildcard, validate]

/-- A part for a field that is there asks the same of the value. -/
theorem FieldFits.eraseField {t : Tuple Value} {x : Symbol × FieldPattern Pattern}
    (h : FieldFits t x)
    (hsub : ∀ q v, x.2 = .sub q → t.field? x.1 = some v → Fits q v → Fits q.erase v) :
    FieldFits t (eraseField x) := by
  obtain ⟨key, part⟩ := x
  obtain ⟨v, hv, hfits⟩ := h
  refine ⟨v, hv, fun q hq => ?_⟩
  cases part with
  | shorthand =>
      cases hq
      simpa using .wildcard v
  | sub q' =>
      cases hq
      exact hsub q' v rfl hv (hfits q' rfl)

/-- A value that fits still fits without the binders. -/
theorem Fits.erase {p : Pattern} {v : Value} (h : Fits p v) : Fits p.erase v := by
  induction h with
  | wildcard v => simpa using .wildcard v
  | bind name v => simpa using .wildcard v
  | literal equal => simpa using .literal equal
  | @tuple p t tag count positional present fields ihPositional ihFields =>
      rw [erase_tuple]
      refine fits_tuple_of_forall ⟨p.tagFits_erase.mpr tag, p.countFits_erase.mpr count, ?_⟩ ?_
      · rw [TuplePattern.aligned_erase, List.forall_mem_map]
        exact fun x hx => ihPositional x.1 x.2 hx
      · rw [TuplePattern.fields_erase, List.forall_mem_map]
        rintro ⟨key, part⟩ hx
        obtain ⟨v, hv⟩ := Option.isSome_iff_exists.mp (present key part hx)
        refine FieldFits.eraseField ⟨v, hv, fun q hq => ?_⟩ fun q w hq hw _ => ?_
        · cases hq
          exact fields key q v hx hv
        · cases hq
          exact ihFields key q w hx hw

section tuple

variable {p : TuplePattern Pattern} {t : Tuple Value}

/-- Positional members that fit a pattern fit the erased one. -/
theorem PositionalFit.erase (h : PositionalFit p t) : PositionalFit p.erase t := by
  obtain ⟨htag, hcount, hpositional⟩ := h
  refine ⟨p.tagFits_erase.mpr htag, p.countFits_erase.mpr hcount, ?_⟩
  rw [TuplePattern.aligned_erase, List.forall_mem_map]
  exact fun x hx => (hpositional x hx).erase

/-- Fields that fit parts fit the erased parts. -/
theorem forall_fieldFits_erase {done : List (Symbol × FieldPattern Pattern)}
    (h : ∀ x ∈ done, FieldFits t x) : ∀ x ∈ done.map eraseField, FieldFits t x := by
  rw [List.forall_mem_map]
  exact fun x hx => (h x hx).eraseField fun _ _ _ _ hq => hq.erase

end tuple

/-- The first condition that does not hold is still the first one without the binders. -/
theorem FirstViolation.erase {p : Pattern} {v : Value} {failure : MatchFailure}
    (h : FirstViolation p v failure) : FirstViolation p.erase v failure := by
  induction h with
  | literal unequal => simpa using .literal unequal
  | notATuple none =>
      rw [erase_tuple]
      exact .notATuple none
  | @tag p t requirement wanted required wants rejects =>
      rw [erase_tuple]
      exact .tag (p.tag_erase.trans required) wants rejects
  | @count p t tag misfit =>
      rw [erase_tuple, ← TuplePattern.fixedCount_eq_of_restFlags p.restFlags_erase,
        ← TuplePattern.hasRest_eq_of_restFlags p.restFlags_erase]
      exact .count (p.tagFits_erase.mpr tag) (p.countFits_erase.not.mpr misfit)
  | @positional p t done later q v failure tag count aligned before _ ih =>
      rw [erase_tuple]
      have herased : p.erase.aligned t.positional = done.map (Prod.map Pattern.erase id)
          ++ (q.erase, v) :: later.map (Prod.map Pattern.erase id) := by
        rw [TuplePattern.aligned_erase, aligned, List.map_append, List.map_cons]
        rfl
      refine .positional (p.tagFits_erase.mpr tag) (p.countFits_erase.mpr count) herased ?_ ih
      rw [List.forall_mem_map]
      exact fun x hx => (before x hx).erase
  | @missingField p t done later key part positional fields before missing =>
      rw [erase_tuple]
      have herased : p.erase.fields = done.map eraseField
          ++ (key, (part.expand .wildcard).map Pattern.erase) :: later.map eraseField := by
        rw [TuplePattern.fields_erase, fields, List.map_append, List.map_cons]
        rfl
      exact .missingField positional.erase herased (forall_fieldFits_erase before) missing
  | @field p t done later key q v failure positional fields before found _ ih =>
      rw [erase_tuple]
      have herased : p.erase.fields = done.map eraseField
          ++ (key, .sub q.erase) :: later.map eraseField := by
        rw [TuplePattern.fields_erase, fields, List.map_append, List.map_cons]
        rfl
      exact .field positional.erase herased (forall_fieldFits_erase before) found ih

end Pattern

/-! ### The same verdict -/

namespace TuplePattern

/-- Both patterns match the tuple, or both fail with the same failure. -/
def SameVerdict (p q : TuplePattern Pattern) (t : Tuple Value) (c d : LayoutCache) : Prop :=
  (∃ b b', (p.matchTuple t c).1 = .ok (.matched b) ∧ (q.matchTuple t d).1 = .ok (.matched b')) ∨
    ∃ failure, (p.matchTuple t c).1 = .ok (.failed failure) ∧
      (q.matchTuple t d).1 = .ok (.failed failure)

variable {p q r : TuplePattern Pattern} {t : Tuple Value} {c d e : LayoutCache}

/-- Patterns that give the verdict of a third one. -/
theorem SameVerdict.of_common (h : SameVerdict p r t c e) (h' : SameVerdict q r t d e) :
    SameVerdict p q t c d := by
  rcases h with ⟨b, b₁, hp, hr⟩ | ⟨failure, hp, hr⟩
  · rcases h' with ⟨b', b₂, hq, -⟩ | ⟨failure, -, hr'⟩
    · exact .inl ⟨b, b', hp, hq⟩
    · cases hr.symm.trans hr'
  · rcases h' with ⟨b', b₂, -, hr'⟩ | ⟨failure', hq, hr'⟩
    · cases hr.symm.trans hr'
    · cases hr.symm.trans hr'
      exact .inr ⟨failure, hp, hq⟩

/-- Erasing keeps validity. -/
theorem validate_erase : p.erase.validate = .ok () ↔ p.validate = .ok () := by
  rw [← Pattern.validate_tuple_eq, ← Pattern.validate_tuple_eq p,
    ← Pattern.validate_erase (.tuple p), Pattern.erase_tuple]

/-- A pattern and its erasure have the same verdict on every tuple. -/
theorem sameVerdict_erase (hp : p.validate = .ok ()) (ht : (Value.tuple t).WellFormed)
    (hc : c.Valid) (hd : d.Valid) : SameVerdict p p.erase t c d := by
  have hvalid : (Pattern.tuple p).validate = .ok () := (Pattern.validate_tuple_eq p).trans hp
  have hvalid' : (Pattern.tuple p.erase).validate = .ok () :=
    (Pattern.validate_tuple_eq _).trans (validate_erase.mpr hp)
  rw [SameVerdict, matchTuple_eq_outcome hp, matchTuple_eq_outcome (validate_erase.mpr hp)]
  obtain ⟨hmatched, hfailed⟩ := Pattern.outcome_semantics hvalid ht hc
  obtain ⟨hmatched', hfailed'⟩ := Pattern.outcome_semantics hvalid' ht hd
  rcases Pattern.fits_or_firstViolation (.tuple p) (.tuple t) with hfits | ⟨failure, hviolation⟩
  · obtain ⟨b, hb⟩ := hmatched.mpr hfits
    obtain ⟨b', hb'⟩ := hmatched'.mpr (Pattern.erase_tuple p ▸ hfits.erase)
    exact .inl ⟨b, b', hb, hb'⟩
  · exact .inr ⟨failure, (hfailed failure).mpr hviolation,
      (hfailed' failure).mpr (Pattern.erase_tuple p ▸ hviolation.erase)⟩

/-- A valid pattern and its erasure match the same tuples and fail with the same failure on all
others, whatever the caches hold. So do all patterns with this erasure: the verdict stays the same
when binders are added, taken out or renamed. -/
theorem verdict_ignores_binders (hp : p.validate = .ok ()) (ht : (Value.tuple t).WellFormed)
    (hc : c.Valid) (hd : d.Valid) :
    p.erase.validate = .ok () ∧ (Pattern.tuple p.erase).boundNames = [] ∧
      SameVerdict p p.erase t c d ∧
      ∀ q : TuplePattern Pattern, q.erase = p.erase →
        q.validate = .ok () ∧ SameVerdict p q t c d := by
  have hnames : (Pattern.tuple p.erase).boundNames = [] := by
    rw [← Pattern.erase_tuple, Pattern.boundNames_erase]
  refine ⟨validate_erase.mpr hp, hnames, sameVerdict_erase hp ht hc hd, fun q hq => ?_⟩
  have hvalid : q.validate = .ok () := by
    rw [← validate_erase, hq]
    exact validate_erase.mpr hp
  have hverdict := sameVerdict_erase hvalid ht hd hc
  rw [hq] at hverdict
  exact ⟨hvalid, (sameVerdict_erase hp ht hc hc).of_common hverdict⟩

/-- The pattern `(x, ...r, y:, z: (x, ...o), ...o)` captures three rests and binds `x` twice. It
matches a tuple and fails on another one like `(_, ..., y: _, z: (_))`. -/
theorem verdict_ignores_binders_of_nested_captures :
    let inner : TuplePattern Pattern :=
      { positional := [.sub (.bind ⟨7⟩)], namedRest := some ⟨9⟩ }
    let p : TuplePattern Pattern :=
      { positional := [.sub (.bind ⟨7⟩), .rest (some ⟨8⟩)]
        fields := [(⟨2⟩, .shorthand), (⟨1⟩, .sub (.tuple inner))]
        namedRest := some ⟨9⟩ }
    let one : Tuple Value := ⟨⟨0, 0, .ofPositional 1⟩, [.int 6], []⟩
    let t : Tuple Value := ⟨⟨0, 1, .descendingPair 2⟩,
      [.int 1, .int 2], [.int 5, .tuple one]⟩
    let u : Tuple Value := ⟨⟨0, 2, .ofPositional 2⟩, [.int 1, .int 2], []⟩
    let cache := LayoutCache.empty 1 true
    p.erase = { positional := [.sub .wildcard, .rest none]
                fields := [(⟨2⟩, .sub .wildcard),
                  (⟨1⟩, .sub (.tuple { positional := [.sub .wildcard] }))] } ∧
      (∃ b, (p.matchTuple t cache).1 = .ok (.matched b)) ∧
      (p.matchTuple u cache).1 = .ok (.failed (.missingField ⟨2⟩)) := by
  intro inner p one t u cache
  have ht : (Value.tuple t).WellFormed := by
    simp [t, one, Value.wellFormed_tuple_iff, Value.WellFormed.int, Tuple.members,
      Tuple.wellFormed_iff, Tuple.layout, Layout.ofPositional, Layout.descendingPair]
  have hu : (Value.tuple u).WellFormed := by
    refine .tuple ⟨rfl, rfl⟩ ?_
    simp [u, Tuple.members, Value.WellFormed.int]
  have hc : cache.Valid := LayoutCache.valid_empty 1 true
  have hvalid : p.validate = .ok () := by rfl
  have hmatched : (p.erase.matchTuple t cache).1 = .ok (.matched ⟨[]⟩) := by with_unfolding_all rfl
  have hfailed : (p.erase.matchTuple u cache).1 = .ok (.failed (.missingField ⟨2⟩)) := by
    with_unfolding_all rfl
  obtain ⟨-, -, hverdict, -⟩ := verdict_ignores_binders hvalid ht hc hc
  obtain ⟨-, -, hverdict', -⟩ := verdict_ignores_binders hvalid hu hc hc
  refine ⟨rfl, ?_, ?_⟩
  · rcases hverdict with ⟨b, -, hb, -⟩ | ⟨failure, -, hfailure⟩
    · exact ⟨b, hb⟩
    · cases hmatched.symm.trans hfailure
  · rcases hverdict' with ⟨-, b, -, hb⟩ | ⟨failure, hp, hfailure⟩
    · cases hfailed.symm.trans hb
    · cases hfailed.symm.trans hfailure
      exact hp

end TuplePattern

end TaggedTuple
