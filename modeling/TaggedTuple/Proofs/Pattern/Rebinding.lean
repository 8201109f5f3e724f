import TaggedTuple.Proofs.Pattern.Bindings
import TaggedTuple.Proofs.Pattern.Names

/-!
# Names that occur more than once

A name may occur in a pattern more than once, at any depth. The bindings of a match hold each name
once, at the place of its first occurrence in the order of the pattern, and with the value of its
last one (`Pattern.matchValue_binds_last_occurrences`). So the names of the bindings and their order
can be read off the pattern alone.
-/

namespace TaggedTuple

namespace Pattern

/-- The names that a valid pattern binds are the same on every value that it matches: the names of
the pattern, each once, in the order of their first occurrences. Each name is bound to a value from
the source of its last occurrence. -/
theorem matchValue_binds_last_occurrences {p : Pattern} {v : Value} (hv : v.WellFormed)
    {cache : LayoutCache} (hc : cache.Valid) {b : Bindings Value}
    (h : (p.matchValue v cache).1 = .ok (.matched b)) :
    b.entries.map Prod.fst = p.boundNames.eraseDups ∧
    (b.entries.map Prod.fst).Nodup ∧
    (p.occurrences v).map Prod.fst = p.boundNames ∧
    ∀ name, Option.Rel Source.Gives ((p.occurrences v).reverse.lookup name) (b.get? name) := by
  cases hp : p.validate with
  | error e =>
      simp only [matchValue, hp] at h
      cases h
  | ok _ =>
      simp only [matchValue, hp] at h
      obtain ⟨bound, cache', hbound, rfl⟩ := Matching.exists_of_outcome_matched h
      obtain ⟨⟨hnames, hgives⟩, -⟩ := p.binds_matchInto hp hv cache bound cache' hc hbound
      have hentries := Bindings.map_fst_ofList bound
      rw [hnames] at hentries
      refine ⟨hentries, ?_, ?_, fun name => ?_⟩
      · rw [hentries]
        exact nodup_eraseDups p.boundNames
      · rw [← hnames]
        exact (forall₂_pairs_iff.mp hgives).1
      · rw [Bindings.get?_ofList]
        exact lookup_rel (List.rel_reverse hgives) name

/-- The pattern `(y, x)`. -/
def innerPattern : TuplePattern Pattern := { positional := [.sub (.bind ⟨2⟩), .sub (.bind ⟨7⟩)] }

/-- The pattern `(x, (y, x), ...z, y:, ...z)`: `x` is bound again inside, `y` by its field, and `z`
by the capture of the other fields. -/
def rebindingPattern : TuplePattern Pattern :=
  { positional := [.sub (.bind ⟨7⟩), .sub (.tuple innerPattern), .rest (some ⟨9⟩)]
    fields := [(⟨2⟩, .shorthand)]
    namedRest := some ⟨9⟩ }

/-- The tuple `(2, 3)`. -/
def innerTuple : Tuple Value := ⟨⟨0, 0, .ofPositional 2⟩, [.int 2, .int 3], []⟩

/-- The tuple `(1, (2, 3), 4, y: 5, w: 6)`. -/
def reboundTuple : Tuple Value :=
  ⟨⟨0, 1, .descendingPair 3⟩, [.int 1, .tuple innerTuple, .int 4], [.int 5, .int 6]⟩

/-- The tuple of the example is well-formed. -/
theorem wellFormed_reboundTuple : (Value.tuple reboundTuple).WellFormed := by
  simp [reboundTuple, innerTuple, Value.wellFormed_tuple_iff, Value.WellFormed.int, Tuple.members,
    Tuple.wellFormed_iff, Tuple.layout, Layout.ofPositional, Layout.descendingPair]

/-- The field `y` of the tuple. -/
theorem field?_reboundTuple : reboundTuple.field? ⟨2⟩ = some (.int 5) :=
  Tuple.field?_eq_some_iff.mpr ⟨0, rfl, rfl⟩

/-- The inner pattern binds both members. -/
theorem fits_innerPattern : Fits (.tuple innerPattern) (.tuple innerTuple) := by
  have htag : innerPattern.TagFits innerTuple.tag := by simp [TuplePattern.TagFits, innerPattern]
  refine .tuple htag rfl (fun q v hq => ?_) (by simp [innerPattern]) (by simp [innerPattern])
  rcases List.mem_pair.mp hq with heq | heq
  · cases heq
    exact .bind _ _
  · cases heq
    exact .bind _ _

/-- The tuple has the two members that the pattern asks for, and the field. -/
theorem fits_rebindingPattern : Fits (.tuple rebindingPattern) (.tuple reboundTuple) := by
  have htag : rebindingPattern.TagFits reboundTuple.tag := by
    simp [TuplePattern.TagFits, rebindingPattern]
  have hcount : rebindingPattern.CountFits reboundTuple.arity := by
    show 2 ≤ 3
    decide
  refine .tuple htag hcount (fun q v hq => ?_) ?_ (by simp [rebindingPattern])
  · rcases List.mem_pair.mp hq with heq | heq
    · cases heq
      exact .bind _ _
    · cases heq
      exact fits_innerPattern
  · rintro key part hpart
    obtain ⟨rfl, -⟩ := Prod.mk.inj (List.mem_singleton.mp hpart)
    rw [field?_reboundTuple]
    rfl

/-- Each of the three names occurs twice. -/
theorem occurrences_rebindingPattern :
    (Pattern.tuple rebindingPattern).occurrences (.tuple reboundTuple)
      = [(⟨7⟩, .value (.int 1)), (⟨2⟩, .value (.int 2)), (⟨7⟩, .value (.int 3)),
        (⟨9⟩, .rest [.int 4]), (⟨2⟩, .value (.int 5)),
        (⟨9⟩, .unmentioned reboundTuple [⟨2⟩])] := by
  rw [occurrences_tuple]
  simp [rebindingPattern, fieldOccurrences, field?_reboundTuple]
  rfl

/-- The names are bound in the order in which they first occur, each to what occurs last. -/
theorem matchValue_binds_last_occurrences_of_nested_pattern :
    ∃ b, ((Pattern.tuple rebindingPattern).matchValue (.tuple reboundTuple) (.empty 0 true)).1
        = .ok (.matched b) ∧
      b.entries.map Prod.fst = [⟨7⟩, ⟨2⟩, ⟨9⟩] ∧
      b.get? ⟨7⟩ = some (.int 3) ∧ b.get? ⟨2⟩ = some (.int 5) ∧
      ∃ u : Tuple Value, b.get? ⟨9⟩ = some (.tuple u) ∧ u.positional = [] ∧
        u.field? ⟨2⟩ = none ∧ u.field? ⟨1⟩ = some (.int 6) := by
  have hv := wellFormed_reboundTuple
  have hc := LayoutCache.valid_empty 0 true
  obtain ⟨b, hb⟩ := (outcome_semantics rfl hv hc).1.mpr fits_rebindingPattern
  have hmatch : ((Pattern.tuple rebindingPattern).matchValue (.tuple reboundTuple)
      (.empty 0 true)).1 = .ok (.matched b) := hb
  obtain ⟨hnames, -, -, hlast⟩ := matchValue_binds_last_occurrences hv hc hmatch
  rw [occurrences_rebindingPattern] at hlast
  have hx : Option.Rel Source.Gives (some (.value (.int 3))) (b.get? ⟨7⟩) := hlast ⟨7⟩
  have hy : Option.Rel Source.Gives (some (.value (.int 5))) (b.get? ⟨2⟩) := hlast ⟨2⟩
  have hz : Option.Rel Source.Gives (some (.unmentioned reboundTuple [⟨2⟩])) (b.get? ⟨9⟩) :=
    hlast ⟨9⟩
  obtain ⟨_, hx, rfl⟩ := exists_of_some_rel hx
  obtain ⟨_, hy, rfl⟩ := exists_of_some_rel hy
  obtain ⟨_, hz, u, rfl, hu⟩ := exists_of_some_rel hz
  have hw : reboundTuple.field? ⟨1⟩ = some (.int 6) := Tuple.field?_eq_some_iff.mpr ⟨1, rfl, rfl⟩
  exact ⟨b, hmatch, hnames, hx, hy, u, hz, hu.positional_eq, hu.field?_eq ⟨2⟩,
    (hu.field?_eq ⟨1⟩).trans hw⟩

end Pattern

end TaggedTuple
