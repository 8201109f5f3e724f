import TaggedTuple.Proofs.Pattern.Bindings
import TaggedTuple.Proofs.Pattern.Semantics
import TaggedTuple.Proofs.Tuple.Literals

/-!
# Taking a tuple apart and putting it together again

`TuplePattern.destructuring` is the pattern `(a, …, ...rest, b, …, f:, …, ...others)`, which binds
the members of a tuple one by one or in two captures. `Bindings.reassemble` makes a builder of what
it has bound. Nothing is lost and nothing is there twice on the way: the tuple that is built is
equal to the one that was taken apart.
-/

namespace TaggedTuple

/-! ### The pattern and the literal -/

/-- Names for the leading positional members, for the capture of the ones in the middle, and for the
trailing ones; fields that are bound to their own names; and a name for the capture of the other
fields. -/
def TuplePattern.destructuring (before : List Symbol) (rest : Symbol) (after fields : List Symbol)
    (others : Symbol) : TuplePattern Pattern where
  positional := before.map (fun name => .sub (.bind name)) ++
    .rest (some rest) :: after.map fun name => .sub (.bind name)
  fields := fields.map fun f => (f, .shorthand)
  namedRest := some others

/-- A builder of a tuple with the given tag, with the entries that were bound by a destructuring. -/
def Bindings.reassemble (b : Bindings Value) (tag : Option Symbol) (before : List Symbol)
    (rest : Symbol) (after fields : List Symbol) (others : Symbol) :
    Option (TupleBuilder Value) := do
  let first ← before.mapM b.get?
  let middle ← (b.get? rest).bind Value.tuple?
  let last ← after.mapM b.get?
  let listed ← fields.mapM b.get?
  let unlisted ← (b.get? others).bind Value.tuple?
  return (TupleBuilder.empty tag).extend
    ((first ++ middle.positional ++ last).map .positional ++
      (fields.zip listed ++ unlisted.named).map fun (f, v) => .named f v)

/-- What a destructuring binds: the leading members, the capture of the ones in the middle, the
trailing members, the values of the listed fields, and the capture of the other fields. -/
def Tuple.destructured (t middle unlisted : Tuple Value) (listed : List Value)
    (before : List Symbol) (rest : Symbol) (after fields : List Symbol) (others : Symbol) :
    List (Symbol × Value) :=
  before.zip t.positional ++ ([(rest, .tuple middle)] ++
    (after.zip (t.positional.drop (t.positional.length - after.length)) ++
      (fields.zip listed ++ [(others, .tuple unlisted)])))

/-! ### Names that are bound in a row -/

namespace Matching

variable {α : Type} {a b : Matching α} {bound more : List (Symbol × α)}
  {cache cache' cache'' : LayoutCache}

/-- Binds a list of names. -/
def bindAll (bound : List (Symbol × α)) : Matching α := fun cache => (.ok bound, cache)

/-- A sequence of two successful matches binds what both bind. -/
theorem followedBy_eq_ok (ha : a cache = (.ok bound, cache'))
    (hb : b cache' = (.ok more, cache'')) :
    a.followedBy b cache = (.ok (bound ++ more), cache'') := by
  simp only [followedBy, ha, hb]

/-- A capture binds the tuple it builds. -/
theorem capture_eq_ok {wrap : Tuple α → α} {name : Symbol} {u : Tuple α}
    {build : LayoutCache → Except TupleError (Tuple α) × LayoutCache}
    (h : build cache = (.ok u, cache')) :
    capture wrap name build cache = (.ok [(name, wrap u)], cache') := by
  simp only [capture, h]

/-- Binders in a row bind the values they stand for. -/
theorem inOrder_binds (names : List Symbol) (values : List Value) :
    inOrder Pattern.matchInto ((names.map .bind).zip values) = bindAll (names.zip values) := by
  induction names generalizing values with
  | nil => rfl
  | cons name names ih =>
      cases values with
      | nil => rfl
      | cons value values =>
          show (bind name value).followedBy
            (inOrder Pattern.matchInto ((names.map .bind).zip values)) = _
          rw [ih]
          rfl

end Matching

namespace TuplePattern

/-- Shorthand fields bind the values of the fields listed. -/
theorem matchFields_shorthand {t : Tuple Value} {fields : List Symbol} {values : List Value}
    (h : values.map some = fields.map t.field?) :
    matchFields t (fields.map fun f => (f, .shorthand)) = .bindAll (fields.zip values) := by
  induction fields generalizing values with
  | nil => rfl
  | cons f fields ih =>
      cases values with
      | nil => cases h
      | cons value values =>
          obtain ⟨hvalue, htail⟩ := List.cons.inj h
          rw [List.map_cons, matchFields, ← hvalue]
          dsimp only
          rw [ih htail]
          rfl

/-! ### The shape of the pattern -/

variable {before after fields : List Symbol} {rest others : Symbol} {t : Tuple Value}

section shape

variable (before rest after fields others)

/-- The positional parts of the pattern: binders around one rest marker. -/
theorem positional_destructuring :
    (destructuring before rest after fields others).positional
      = (before.map Pattern.bind).map .sub ++
        .rest (some rest) :: (after.map Pattern.bind).map .sub := by
  simp [destructuring, Function.comp_def]

/-- The leading sub-patterns are the binders before the rest. -/
theorem leading_destructuring :
    (destructuring before rest after fields others).leading = before.map .bind := by
  rw [leading, positional_destructuring, List.takeWhile_append_of_pos]
  · simp [PositionalPattern.sub?, Function.comp_def]
  · simp

/-- The trailing sub-patterns are the binders after the rest. -/
theorem trailing_destructuring :
    (destructuring before rest after fields others).trailing = after.map .bind := by
  rw [trailing, positional_destructuring, List.dropWhile_append_of_pos]
  · simp [PositionalPattern.sub?, Function.comp_def]
  · simp

/-- The pattern has one rest marker. -/
theorem singleRest_destructuring : (destructuring before rest after fields others).SingleRest := by
  rw [SingleRest, positional_destructuring]
  simp [List.countP_append, List.countP_cons, List.countP_map, Function.comp_def]

/-- The pattern is valid, whatever its names. -/
theorem validate_destructuring :
    (destructuring before rest after fields others).validate = .ok () := by
  refine validate_eq_ok_iff.mpr ⟨singleRest_destructuring .., ?_, ?_⟩
  · intro q hq
    obtain ⟨name, rfl⟩ : ∃ name, Pattern.bind name = q := by
      rw [positional_destructuring] at hq
      simp only [List.map_map, List.mem_append, List.mem_map, List.mem_cons, reduceCtorEq,
        false_or] at hq
      rcases hq with ⟨name, -, hname⟩ | ⟨name, -, hname⟩
      · exact ⟨name, PositionalPattern.sub.inj hname⟩
      · exact ⟨name, PositionalPattern.sub.inj hname⟩
    rfl
  · intro key q hq
    simp [destructuring] at hq

/-- The pattern fits tuples with enough positional members. -/
theorem countFits_destructuring {count : Nat} :
    (destructuring before rest after fields others).CountFits count ↔
      before.length + after.length ≤ count := by
  rw [CountFits, (singleRest_destructuring ..).fixedCount_eq, leading_destructuring,
    trailing_destructuring, List.length_map, List.length_map, if_pos]
  rw [hasRest, positional_destructuring]
  simp

/-- The fields that the pattern mentions are those listed. -/
theorem keys_destructuring :
    (destructuring before rest after fields others).fields.map Prod.fst = fields := by
  simp [destructuring, Function.comp_def]

/-- The rest that the pattern captures is the slice between its binders. -/
theorem captureRest_destructuring (t : Tuple Value) :
    ((destructuring before rest after fields others).map Pattern.matchInto).captureRest .tuple t
      = .capture .tuple rest (t.slicePositional before.length (t.arity - after.length)) := by
  have hfind : ((destructuring before rest after fields others).map
      Pattern.matchInto).positional.find? (·.isRest) = some (.rest (some rest)) := by
    simp [map, positional_destructuring, PositionalPattern.map]
  unfold captureRest
  rw [hfind, leading_map, trailing_map, leading_destructuring, trailing_destructuring]
  simp only [List.length_map]

end shape

/-! ### The match -/

section run

variable (rest others) (ht : t.WellFormed) (hcount : before.length + after.length ≤ t.arity)
include ht hcount

/-- The match succeeds. It binds the leading and the trailing members, the listed fields, and two
tuples that hold the members between and the other fields. -/
theorem exists_matchInto_destructuring (hfields : ∀ f ∈ fields, f ∈ t.layout.fields)
    {cache : LayoutCache} (hc : cache.Valid) :
    ∃ middle unlisted listed cache',
      middle.HasMembers none ((t.positional.take (t.arity - after.length)).drop before.length)
        (fun _ => none) ∧
      unlisted.HasMembers none [] (fun f => if f ∈ fields then none else t.field? f) ∧
      listed.map some = fields.map t.field? ∧
      (destructuring before rest after fields others).matchInto t cache = (.ok
        (t.destructured middle unlisted listed before rest after fields others), cache') := by
  have harity : t.arity = t.positional.length := ht.positional_length.symm
  have hsome : ∀ f ∈ fields, (t.field? f).isSome = true := fun f hf =>
    ht.isSome_field?_iff.mpr (hfields f hf)
  obtain ⟨listed, -, hlisted⟩ := Tuple.exists_collect hsome
  obtain ⟨middle, c₁, hslice, hc₁, hmiddle⟩ : ∃ u c',
      t.slicePositional before.length (t.arity - after.length) cache = (.ok u, c') ∧ c'.Valid ∧
        u.HasMembers none _ _ := by
    rcases t.slicePositional_cases before.length (t.arity - after.length) hc with
      ⟨-, -, h⟩ | ⟨hrange, -⟩
    · exact h
    · exact absurd ⟨by omega, by omega⟩ hrange
  obtain ⟨unlisted, c₂, hproject, -, hunlisted⟩ := exists_projectNamed_unmentioned
    (destructuring before rest after fields others) ht hc₁
  rw [keys_destructuring] at hunlisted
  refine ⟨middle, unlisted, listed, c₂, hmiddle, hunlisted, hlisted, ?_⟩
  unfold matchInto
  rw [matchParts_map_eq (singleRest_destructuring ..) ht nofun
    ((countFits_destructuring ..).mpr hcount), leading_destructuring, trailing_destructuring,
    List.length_map, Matching.inOrder_binds, Matching.inOrder_binds, captureRest_destructuring]
  have hlast : matchNamedRest Value.tuple
      ((destructuring before rest after fields others).map Pattern.matchInto) t c₁
        = (.ok [(others, .tuple unlisted)], c₂) := by
    unfold matchNamedRest
    rw [unmentioned_map]
    exact Matching.capture_eq_ok hproject
  have hlist : matchFields t
      ((destructuring before rest after fields others).fields.map fun x =>
        (x.1, x.2.map Pattern.matchInto)) = .bindAll (fields.zip listed) := by
    rw [← matchFields_shorthand hlisted]
    simp [destructuring, FieldPattern.map, Function.comp_def]
  rw [hlist]
  refine Matching.followedBy_eq_ok rfl ?_
  refine Matching.followedBy_eq_ok (Matching.capture_eq_ok hslice) ?_
  exact Matching.followedBy_eq_ok rfl (Matching.followedBy_eq_ok rfl hlast)

end run

end TuplePattern

/-! ### The tuple that is built -/

/-- A builder with the tag and the members of a tuple builds it again, on any cache. -/
theorem TupleBuilder.exists_finish_beq {t : Tuple Value} (ht : (Value.tuple t).WellFormed)
    {named : List (Symbol × Value)} (hnodup : (named.map Prod.fst).Nodup)
    (hnamed : ∀ f, named.lookup f = t.field? f) {cache : LayoutCache} (hc : cache.Valid) :
    ∃ u cache', (⟨t.tag, t.positional, named⟩ : TupleBuilder Value).finish cache = (.ok u, cache') ∧
      (u == t) = true := by
  obtain ⟨hwf, hmembers⟩ := Value.wellFormed_tuple_iff.mp ht
  have hself : t.HasMembers t.tag t.positional t.field? := ⟨hwf, rfl, rfl, fun _ => rfl⟩
  obtain ⟨u, cache', hfinish, hu⟩ := exists_finish_of_members hnodup hnamed hc
  refine ⟨u, cache', hfinish, (Tuple.beq_iff hu.wellFormed hwf).mpr ?_⟩
  refine hu.rel hself (List.forall₂_same.mpr fun v hv => ?_) fun f => optionRel_refl fun v hv => ?_
  · exact Value.beq_refl (hmembers v (Tuple.mem_members_of_positional hv))
  · exact Value.beq_refl (hmembers v (Tuple.mem_members_of_field? hv))

/-- What stands before, between and behind two positions of a list is the list. -/
theorem take_append_drop_take_append_drop {α : Type} (l : List α) {i j : Nat} (h : i ≤ j) :
    l.take i ++ (l.take j).drop i ++ l.drop j = l := by
  have htake : l.take i = (l.take j).take i := by rw [List.take_take, Nat.min_eq_left h]
  rw [htake, List.take_append_drop, List.take_append_drop]

namespace Tuple

variable {t unlisted : Tuple Value} {fields : List Symbol} {listed : List Value}
  (hunlisted : unlisted.HasMembers none [] fun f => if f ∈ fields then none else t.field? f)
include hunlisted

/-- The tuple of the rest has exactly the fields that are not listed. -/
theorem mem_fields_unlisted_iff (ht : t.WellFormed) {f : Symbol} :
    f ∈ unlisted.layout.fields ↔ f ∈ t.layout.fields ∧ f ∉ fields := by
  rw [← hunlisted.wellFormed.isSome_field?_iff, hunlisted.field?_eq, ← ht.isSome_field?_iff]
  by_cases hf : f ∈ fields
  · simp [hf]
  · simp [hf]

section listed

variable (hlisted : listed.map some = fields.map t.field?)
include hlisted

omit hunlisted in
/-- Listed fields and their values pair up. -/
theorem map_fst_zip_listed : (fields.zip listed).map Prod.fst = fields := by
  have hlength := congrArg List.length hlisted
  rw [List.length_map, List.length_map] at hlength
  exact List.map_fst_zip (Nat.le_of_eq hlength.symm)

/-- Listed and unlisted fields have different names. -/
theorem nodup_listed_append_unlisted (ht : t.WellFormed) (hnodup : fields.Nodup) :
    ((fields.zip listed ++ unlisted.named).map Prod.fst).Nodup := by
  rw [List.map_append, map_fst_zip_listed hlisted, hunlisted.wellFormed.map_fst_named]
  refine List.nodup_append.mpr ⟨hnodup, unlisted.layout.fields_nodup, ?_⟩
  rintro f hf g hg rfl
  exact ((mem_fields_unlisted_iff hunlisted ht).mp hg).2 hf

/-- Each field is found among the listed or among the unlisted ones. -/
theorem lookup_listed_append_unlisted (hnodup : fields.Nodup) (f : Symbol) :
    (fields.zip listed ++ unlisted.named).lookup f = t.field? f := by
  rw [List.lookup_append, ← field?_eq_lookup, hunlisted.field?_eq]
  by_cases hf : f ∈ fields
  · obtain ⟨i, hi⟩ := List.mem_iff_getElem?.mp hf
    have hget := congrArg (fun l : List (Option Value) => l[i]?) hlisted
    simp only [List.getElem?_map, hi, Option.map_some] at hget
    obtain ⟨v, hv, hsome⟩ := Option.map_eq_some_iff.mp hget
    have hlookup : (fields.zip listed).lookup f = some v :=
      (lookup_zip_eq_some_iff hnodup).mpr ⟨i, hi, hv⟩
    rw [hlookup, ← hsome]
    rfl
  · have hnone : (fields.zip listed).lookup f = none := by
      rw [lookup_eq_none_iff_not_mem_keys, map_fst_zip_listed hlisted]
      exact hf
    simp [hnone, hf]

end listed

end Tuple

/-! ### The bindings -/

namespace Bindings

variable {before after fields : List Symbol} {rest others : Symbol}
  {t middle unlisted : Tuple Value} {listed : List Value}

section destructured

variable (hbefore : before.length ≤ t.positional.length)
  (hafter : after.length ≤ t.positional.length) (hlisted : listed.length = fields.length)
include hbefore hafter hlisted

/-- Each name is bound to its part of the tuple. -/
theorem get?_ofList_destructured (hnames : (before ++ rest :: (after ++ others :: fields)).Nodup) :
    ∀ x ∈ t.destructured middle unlisted listed before rest after fields others,
      (ofList (t.destructured middle unlisted listed before rest after fields others)).get? x.1
        = some x.2 := by
  have hkeys : (t.destructured middle unlisted listed before rest after fields others).map Prod.fst
      = before ++ rest :: (after ++ (fields ++ [others])) := by
    have hdrop : after.length ≤
        (t.positional.drop (t.positional.length - after.length)).length := by
      rw [List.length_drop]
      omega
    simp only [Tuple.destructured, List.map_append, List.map_cons, List.map_nil,
      List.map_fst_zip hbefore, List.map_fst_zip hdrop,
      List.map_fst_zip (Nat.le_of_eq hlisted.symm), List.singleton_append]
  have hnodup : ((t.destructured middle unlisted listed before rest after fields others).map
      Prod.fst).Nodup := by
    have hperm : (fields ++ [others]).Perm (others :: fields) := List.perm_append_singleton ..
    rw [hkeys]
    exact (((hperm.append_left after).cons rest).append_left before).nodup_iff.mpr hnames
  intro x hx
  exact (get?_ofList_eq_some_iff hnodup).mpr hx

/-- The builder has the members that were bound one by one and those of the captures. -/
theorem reassemble_eq {b : Bindings Value} (tag : Option Symbol)
    (h : ∀ x ∈ t.destructured middle unlisted listed before rest after fields others,
      b.get? x.1 = some x.2) :
    b.reassemble tag before rest after fields others
      = some ⟨tag, t.positional.take before.length ++ middle.positional
          ++ t.positional.drop (t.positional.length - after.length),
          fields.zip listed ++ unlisted.named⟩ := by
  simp only [Tuple.destructured, List.forall_mem_append, List.forall_mem_singleton] at h
  obtain ⟨hfirst, hrest, hlast, hfields, hothers⟩ := h
  have hdrop : (t.positional.drop (t.positional.length - after.length)).length = after.length := by
    rw [List.length_drop]
    omega
  have hlast := mapM_get?_eq (Nat.le_of_eq hdrop.symm) hlast
  rw [List.take_of_length_le (Nat.le_of_eq hdrop)] at hlast
  have hfields := mapM_get?_eq (Nat.le_of_eq hlisted.symm) hfields
  rw [List.take_of_length_le (Nat.le_of_eq hlisted)] at hfields
  unfold reassemble
  rw [mapM_get?_eq hbefore hfirst, hrest, hlast, hfields, hothers]
  show some ((TupleBuilder.empty tag).extend (TupleEntry.listing _ _)) = _
  rw [TupleBuilder.extend_eq, TupleEntry.filterMap_positional?_listing,
    TupleEntry.filterMap_named?_listing]
  rfl

end destructured

end Bindings

/-! ### The round trip -/

namespace TuplePattern

variable {before after fields : List Symbol} {rest others : Symbol} {t : Tuple Value}

/-- A tuple that is taken apart, on any cache, is put together again on any other. The two captures
have no tag. One holds the positional members that have no name of their own, and the other the
fields that are not listed. -/
theorem destructuring_roundTrip (ht : (Value.tuple t).WellFormed)
    (hcount : before.length + after.length ≤ t.arity)
    (hnames : (before ++ rest :: (after ++ others :: fields)).Nodup)
    (hfields : ∀ f ∈ fields, f ∈ t.layout.fields) {cache : LayoutCache} (hc : cache.Valid) :
    ∃ bindings middle unlisted,
      ((destructuring before rest after fields others).matchTuple t cache).1
        = .ok (.matched bindings) ∧
      (bindings.get? rest = some (.tuple middle) ∧ middle.tag = none ∧
        middle.layout.fields = [] ∧
        middle.positional.length = t.arity - before.length - after.length) ∧
      (bindings.get? others = some (.tuple unlisted) ∧ unlisted.tag = none ∧
        unlisted.positional = [] ∧
        ∀ f, f ∈ unlisted.layout.fields ↔ f ∈ t.layout.fields ∧ f ∉ fields) ∧
      ∀ other : LayoutCache, other.Valid → ∃ builder u other',
        bindings.reassemble t.tag before rest after fields others = some builder ∧
          builder.finish other = (.ok u, other') ∧ (u == t) = true := by
  have hwf := (Value.wellFormed_tuple_iff.mp ht).1
  have harity : t.arity = t.positional.length := hwf.positional_length.symm
  have hbefore : before.length ≤ t.positional.length := by omega
  have hafter : after.length ≤ t.positional.length := by omega
  have hnodup : fields.Nodup :=
    (List.nodup_cons.mp (List.nodup_append.mp
      (List.nodup_cons.mp (List.nodup_append.mp hnames).2.1).2).2.1).2
  obtain ⟨middle, unlisted, listed, cache', hmiddle, hunlisted, hlisted, hrun⟩ :=
    exists_matchInto_destructuring rest others hwf hcount hfields hc
  have hlength : listed.length = fields.length := by
    simpa using congrArg List.length hlisted
  have hget : ∀ x ∈ t.destructured middle unlisted listed before rest after fields others, _ :=
    Bindings.get?_ofList_destructured hbefore hafter hlength hnames
  refine ⟨.ofList (t.destructured middle unlisted listed before rest after fields others), middle,
    unlisted, ?_, ⟨?_, hmiddle.tag_eq, ?_, ?_⟩, ⟨?_, hunlisted.tag_eq, hunlisted.positional_eq, ?_⟩,
    ?_⟩
  · unfold matchTuple Matching.outcome
    rw [validate_destructuring]
    simp only [hrun]
  · exact hget (rest, .tuple middle) (by simp [Tuple.destructured])
  · refine List.eq_nil_iff_forall_not_mem.mpr fun f hf => ?_
    have hsome := hmiddle.wellFormed.isSome_field?_iff.mpr hf
    rw [hmiddle.field?_eq] at hsome
    exact absurd hsome (by simp)
  · rw [hmiddle.positional_eq, List.length_drop, List.length_take]
    omega
  · exact hget (others, .tuple unlisted) (by simp [Tuple.destructured])
  · intro f
    exact Tuple.mem_fields_unlisted_iff hunlisted hwf
  · intro other hother
    -- the listed and the unlisted fields are all fields, in another order
    obtain ⟨u, other', hfinish, hequal⟩ := TupleBuilder.exists_finish_beq ht
      (Tuple.nodup_listed_append_unlisted hunlisted hlisted hwf hnodup)
      (Tuple.lookup_listed_append_unlisted hunlisted hlisted hnodup) hother
    refine ⟨_, u, other',
      Bindings.reassemble_eq hbefore hafter hlength t.tag hget, ?_, hequal⟩
    rw [hmiddle.positional_eq, ← harity, take_append_drop_take_append_drop _ (by omega)]
    exact hfinish

/-- A tuple with two members and a field, taken apart and rebuilt. -/
theorem destructuring_roundTrip_of_three_members :
    let p := destructuring [⟨5⟩] ⟨6⟩ [⟨7⟩] [⟨1⟩] ⟨8⟩
    let t : Tuple Value :=
      ⟨⟨0, 3, .descendingPair 3⟩, [.int 10, .int 20, .int 30],
        [.str "y", .str "x"]⟩
    ∃ bindings middle unlisted,
      (p.matchTuple t (.empty 0 true)).1 = .ok (.matched bindings) ∧
      (bindings.get? ⟨6⟩ = some (.tuple middle) ∧ middle.positional.length = 1) ∧
      (bindings.get? ⟨8⟩ = some (.tuple unlisted) ∧ ⟨2⟩ ∈ unlisted.layout.fields ∧
        ⟨1⟩ ∉ unlisted.layout.fields) ∧
      ∃ builder u other', bindings.reassemble t.tag [⟨5⟩] ⟨6⟩ [⟨7⟩] [⟨1⟩] ⟨8⟩ = some builder ∧
        builder.finish (.empty 4 false) = (.ok u, other') ∧ (u == t) = true := by
  intro p t
  have ht : (Value.tuple t).WellFormed := by
    simp [t, Value.wellFormed_tuple_iff, Value.WellFormed.int, Value.WellFormed.str, Tuple.members,
      Tuple.wellFormed_iff, Tuple.layout, Layout.descendingPair]
  obtain ⟨bindings, middle, unlisted, hmatch, ⟨hrest, -, -, hlength⟩, ⟨hothers, -, -, hmem⟩, h⟩ :=
    @destructuring_roundTrip [⟨5⟩] [⟨7⟩] [⟨1⟩] ⟨6⟩ ⟨8⟩ t ht (by decide) (by decide) (by decide) _
      (LayoutCache.valid_empty 0 true)
  refine ⟨bindings, middle, unlisted, hmatch, ⟨hrest, hlength⟩,
    ⟨hothers, (hmem ⟨2⟩).mpr (by decide), fun hlisted => ?_⟩, h _ (LayoutCache.valid_empty 4 false)⟩
  exact ((hmem ⟨1⟩).mp hlisted).2 (by decide)

end TuplePattern

end TaggedTuple
