import TaggedTuple.Pattern.Matching
import TaggedTuple.Proofs.Renaming.Cache
import TaggedTuple.Proofs.Renaming.Pattern
import TaggedTuple.Proofs.Renaming.Value

/-!
# Renaming the symbols of a match

`Matching.RenamesTo` relates a match to one with renamed symbols: on a renamed cache the second one
ends as the first one does, with renamed bindings or a renamed failure, and leaves the renamed
cache. The combinators of matches keep this relation, and so does the matcher, by induction on the
pattern (`Pattern.renamesTo_matchInto`). From it follow the outcomes of a single pattern
(`TuplePattern.matchTuple_rename`) and of a list of arms (`TuplePattern.matchArms_rename`).
-/

namespace TaggedTuple

variable {α β : Type} (r : Symbol ↪ Symbol)

/-! ### Outcomes -/

/-- The halt with renamed symbols. -/
def Halt.rename : Halt → Halt
  | .failed failure => .failed (failure.rename r)
  | .malformed e => .malformed (e.rename r)

/-- The bindings of renamed names, their values mapped by a function. -/
def Bindings.rename (g : α → β) (b : Bindings α) : Bindings β := ⟨b.entries.map (Prod.map r g)⟩

/-- The outcome with renamed names and symbols. -/
def MatchOutcome.rename (g : α → β) : MatchOutcome α → MatchOutcome β
  | .matched bindings => .matched (bindings.rename r g)
  | .failed failure => .failed (failure.rename r)

/-- The same arm with renamed bindings. -/
def ArmMatch.rename (g : α → β) (a : ArmMatch α) : ArmMatch β :=
  { arm := a.arm, bindings := a.bindings.rename r g }

namespace Bindings

/-- Binding a renamed name renames the entries. -/
theorem bindEntry_rename (g : α → β) (name : Symbol) (a : α) (entries : List (Symbol × α)) :
    bindEntry (r name) (g a) (entries.map (Prod.map r g))
      = (bindEntry name a entries).map (Prod.map r g) := by
  induction entries with
  | nil => rfl
  | cons x entries ih =>
      obtain ⟨bound, old⟩ := x
      simp only [List.map_cons, Prod.map_apply, bindEntry, ih, r.injective.eq_iff]
      split_ifs
      · rfl
      · rfl

/-- The bindings of renamed names are renamed bindings. -/
theorem ofList_rename (g : α → β) (bound : List (Symbol × α)) :
    ofList (bound.map (Prod.map r g)) = (ofList bound).rename r g := by
  have hempty : (empty : Bindings β) = empty.rename r g := rfl
  unfold ofList
  rw [List.foldl_map, hempty]
  apply List.foldl_hom (rename r g)
  intro b x
  simp [bind, rename, bindEntry_rename]

end Bindings

/-! ### Matches -/

namespace Matching

/-- On a renamed cache the second match ends as the first one does, with all symbols renamed. -/
def RenamesTo (m m' : Matching Value) : Prop :=
  ∀ c : LayoutCache, c.Valid →
    m' (c.rename r) = Prod.map (renameResult (.rename r) (List.map (Prod.map r (.rename r))))
      (LayoutCache.rename r) (m c) ∧ (m c).2.Valid

/-- The empty match renames to itself. -/
theorem renamesTo_nothing : (nothing : Matching Value).RenamesTo r nothing := by
  intro c hc
  exact ⟨rfl, hc⟩

/-- A binder renames to the binder of the renamed name. -/
theorem renamesTo_bind (name : Symbol) (v : Value) :
    (bind name v).RenamesTo r (bind (r name) (v.rename r)) := by
  intro c hc
  exact ⟨rfl, hc⟩

/-- A failure renames to the renamed failure. -/
theorem renamesTo_fail (failure : MatchFailure) :
    (fail failure : Matching Value).RenamesTo r (fail (failure.rename r)) := by
  intro c hc
  exact ⟨rfl, hc⟩

variable {r}

/-- Matches rename one after the other. -/
theorem RenamesTo.followedBy {m m' n n' : Matching Value} (hm : m.RenamesTo r m')
    (hn : n.RenamesTo r n') : (m.followedBy n).RenamesTo r (m'.followedBy n') := by
  intro c hc
  obtain ⟨hfirst, hc'⟩ := hm c hc
  unfold Matching.followedBy
  rw [hfirst]
  generalize m c = first at hc' ⊢
  obtain ⟨halt | bound, c'⟩ := first
  · exact ⟨rfl, hc'⟩
  · obtain ⟨hsecond, hc''⟩ := hn c' hc'
    dsimp only [Prod.map_apply, renameResult_ok]
    rw [hsecond]
    generalize n c' = second at hc'' ⊢
    obtain ⟨halt | more, c''⟩ := second
    · exact ⟨rfl, hc''⟩
    · refine ⟨?_, hc''⟩
      simp

/-- A capture is renamed when the tuple that it builds is. -/
theorem renamesTo_capture (name : Symbol)
    {build build' : LayoutCache → Except TupleError (Tuple Value) × LayoutCache}
    (h : ∀ c : LayoutCache, c.Valid →
      build' (c.rename r) = Prod.map (renameResult (.rename r) (Tuple.rename r (.rename r)))
        (LayoutCache.rename r) (build c) ∧ (build c).2.Valid) :
    (capture .tuple name build).RenamesTo r (capture .tuple (r name) build') := by
  intro c hc
  obtain ⟨hbuild, hc'⟩ := h c hc
  unfold capture
  rw [hbuild]
  generalize build c = built at hc' ⊢
  obtain ⟨e | t, c'⟩ := built
  · exact ⟨rfl, hc'⟩
  · refine ⟨?_, hc'⟩
    simp

end Matching

/-! ### Tuple patterns -/

namespace LayoutCache.Valid

variable {c : LayoutCache} (hc : c.Valid)
include hc

/-- A slice leaves a valid cache. -/
theorem slicePositional (t : Tuple α) (start stop : Nat) :
    (t.slicePositional start stop c).2.Valid := by
  rcases t.slicePositional_cases start stop hc with ⟨-, -, u, c', hok, hc', -⟩ | ⟨-, herror⟩
  · rwa [hok]
  · rwa [herror]

/-- A projection leaves a valid cache. -/
theorem projectNamed (t : Tuple α) (fields : List Symbol) : (t.projectNamed fields c).2.Valid := by
  rcases t.projectNamed_cases fields hc with
    ⟨f, -, herror⟩ | ⟨-, f, -, -, c', herror, hc'⟩ | ⟨-, -, u, c', hok, hc', -⟩
  · rwa [herror]
  · rwa [herror]
  · rwa [hok]

end LayoutCache.Valid

namespace TuplePattern

variable {π : Type} {r : Symbol ↪ Symbol} {F F' : π → Value → Matching Value} (t : Tuple Value)

/-- Positional parts rename if their sub-patterns do. -/
theorem renamesTo_matchPositional (alignment : Alignment) {parts : List (PositionalPattern π)}
    (hparts : ∀ q, .sub q ∈ parts → ∀ v, (F q v).RenamesTo r (F' q (v.rename r))) (i : Nat) :
    (matchPositional .tuple alignment t i (parts.map (.map F))).RenamesTo r
      (matchPositional .tuple alignment (t.rename r (Value.rename r)) i
        (parts.map (.rename r F'))) := by
  induction parts generalizing i with
  | nil => exact Matching.renamesTo_nothing r
  | cons part parts ih =>
      have htail := ih (fun q hq => hparts q (List.mem_cons_of_mem _ hq)) (i + 1)
      rw [List.map_cons, List.map_cons]
      rcases part with q | (_ | name)
      · have hvalue : (alignment.valueIndex? i).bind (t.rename r (Value.rename r)).at?
            = ((alignment.valueIndex? i).bind t.at?).map (Value.rename r) := by
          cases alignment.valueIndex? i with
          | none => rfl
          | some j => exact Tuple.at?_rename r _ t j
        rw [PositionalPattern.map, PositionalPattern.rename, matchPositional, matchPositional,
          hvalue]
        cases (alignment.valueIndex? i).bind t.at? with
        | none => exact htail
        | some v => exact (hparts q List.mem_cons_self v).followedBy htail
      · exact htail
      · apply Matching.RenamesTo.followedBy
        · apply Matching.renamesTo_capture
          intro c hc
          exact ⟨t.slicePositional_rename r _ hc _ _, hc.slicePositional t _ _⟩
        · exact htail

/-- Parts for fields rename if their sub-patterns do. -/
theorem renamesTo_matchFields {parts : List (Symbol × FieldPattern π)}
    (hparts : ∀ key q, (key, .sub q) ∈ parts → ∀ v, (F q v).RenamesTo r (F' q (v.rename r))) :
    (matchFields t (parts.map fun (key, part) => (key, part.map F))).RenamesTo r
      (matchFields (t.rename r (.rename r)) (parts.map (Prod.map r (.map F')))) := by
  induction parts with
  | nil => exact Matching.renamesTo_nothing r
  | cons part parts ih =>
      have htail := ih fun key q hq => hparts key q (List.mem_cons_of_mem _ hq)
      obtain ⟨key, part⟩ := part
      rw [List.map_cons, List.map_cons, Prod.map_apply, matchFields, matchFields,
        Tuple.field?_rename]
      cases t.field? key with
      | none => exact Matching.renamesTo_fail r (.missingField key)
      | some v =>
          apply Matching.RenamesTo.followedBy
          · cases part with
            | shorthand => exact Matching.renamesTo_bind r key v
            | sub q => exact hparts key q List.mem_cons_self v
          · exact htail

/-- The fields that are left over are distinct, so the capture of them is renamed. -/
theorem renamesTo_matchNamedRest (p : TuplePattern π) :
    (matchNamedRest .tuple (p.map F) t).RenamesTo r
      (matchNamedRest .tuple (p.rename r F') (t.rename r (.rename r))) := by
  have hfields : (p.rename r F').unmentioned (t.layout.rename r)
      = ((p.map F).unmentioned t.layout).map r := by
    rw [unmentioned_rename, unmentioned_map]
  unfold matchNamedRest
  rw [Tuple.layout_rename, hfields]
  dsimp only [TuplePattern.map, TuplePattern.rename]
  cases p.namedRest with
  | none => exact Matching.renamesTo_nothing r
  | some name =>
      apply Matching.renamesTo_capture
      intro c hc
      have hnodup : ((p.map F).unmentioned t.layout).Nodup := t.layout.fields_nodup.filter _
      exact ⟨t.projectNamed_rename r _ hc hnodup, hc.projectNamed t _⟩

/-- A tuple pattern is renamed when its sub-patterns are. -/
theorem renamesTo_matchParts {p : TuplePattern π}
    (hpositional : ∀ q, .sub q ∈ p.positional → ∀ v, (F q v).RenamesTo r (F' q (v.rename r)))
    (hfields : ∀ key q, (key, .sub q) ∈ p.fields → ∀ v,
      (F q v).RenamesTo r (F' q (v.rename r))) :
    (matchParts .tuple (p.map F) t).RenamesTo r
      (matchParts .tuple (p.rename r F') (t.rename r (.rename r))) := by
  have htag : (p.map F).checkTag t.tag = p.checkTag t.tag := rfl
  unfold matchParts
  rw [Tuple.tag_rename, Tuple.arity_rename, checkTag_rename, align_rename, htag, align_map]
  cases p.checkTag t.tag with
  | error failure => exact Matching.renamesTo_fail r failure
  | ok _ =>
      cases p.align t.arity with
      | error failure => exact Matching.renamesTo_fail r failure
      | ok alignment =>
          apply Matching.RenamesTo.followedBy
          · exact renamesTo_matchPositional t alignment hpositional 0
          · apply Matching.RenamesTo.followedBy
            · exact renamesTo_matchFields t hfields
            · exact renamesTo_matchNamedRest t p

end TuplePattern

/-! ### Patterns -/

/-- A literal accepts a renamed value as it accepts the value. -/
theorem Literal.accepts_rename (l : Literal) (v : Value) :
    l.accepts (v.rename r) = l.accepts v := by
  cases v <;> cases l <;> simp [accepts, Value.int?, Value.str?]

/-- A value is matched as before when both the pattern and the value are renamed. -/
theorem Pattern.renamesTo_matchInto (p : Pattern) (v : Value) :
    (p.matchInto v).RenamesTo r ((p.rename r).matchInto (v.rename r)) := by
  -- on the pattern, not on the value: a sub-pattern is matched against some member
  induction p using Pattern.induction generalizing v with
  | wildcard => exact Matching.renamesTo_nothing r
  | bind name => exact Matching.renamesTo_bind r name v
  | literal l =>
      rw [rename_literal, matchInto, matchInto, Literal.accepts_rename]
      split_ifs
      · exact Matching.renamesTo_nothing r
      · exact Matching.renamesTo_fail r .literalMismatch
  | tuple p ihPositional ihFields =>
      rw [rename_tuple]
      cases v with
      | int n => exact Matching.renamesTo_fail r .notATuple
      | str s => exact Matching.renamesTo_fail r .notATuple
      | tuple t =>
          rw [Value.rename_tuple, matchInto_tuple, matchInto_tuple, TuplePattern.map_rename]
          exact TuplePattern.renamesTo_matchParts t ihPositional ihFields

/-! ### Outcomes -/

section outcome

variable {r} {c : LayoutCache} (hc : c.Valid)
include hc

/-- The outcome of a renamed match is the renamed outcome. -/
theorem Matching.RenamesTo.outcome {m m' : Matching Value} (h : m.RenamesTo r m') :
    m'.outcome (c.rename r) = Prod.map (renameResult (.rename r) (.rename r (.rename r)))
      (LayoutCache.rename r) (m.outcome c) ∧ (m.outcome c).2.Valid := by
  obtain ⟨hrun, hc'⟩ := h c hc
  unfold Matching.outcome
  rw [hrun]
  generalize m c = run at hc' ⊢
  obtain ⟨(failure | e) | bound, c'⟩ := run
  · exact ⟨rfl, hc'⟩
  · exact ⟨rfl, hc'⟩
  · refine ⟨?_, hc'⟩
    simp [Bindings.ofList_rename, MatchOutcome.rename]

namespace TuplePattern

variable (r) (t : Tuple Value)

omit hc in
/-- A match of a tuple renames to the match of the renamed tuple. -/
theorem renamesTo_matchInto (p : TuplePattern Pattern) :
    (p.matchInto t).RenamesTo r
      ((p.rename r (.rename r)).matchInto (t.rename r (.rename r))) := by
  have hp := Pattern.renamesTo_matchInto r (.tuple p) (.tuple t)
  rwa [Pattern.rename_tuple, Value.rename_tuple, Pattern.matchInto_tuple,
    Pattern.matchInto_tuple] at hp

/-- A renamed tuple is matched by a renamed pattern with the renamed outcome, and leaves the renamed
cache. -/
theorem matchTuple_rename (p : TuplePattern Pattern) :
    (p.rename r (.rename r)).matchTuple (t.rename r (.rename r)) (c.rename r)
      = Prod.map (renameResult (.rename r) (.rename r (.rename r))) (LayoutCache.rename r)
        (p.matchTuple t c) := by
  unfold matchTuple
  rw [validate_rename]
  cases p.validate with
  | error e => rfl
  | ok _ => exact ((renamesTo_matchInto r t p).outcome hc).1

omit hc in
/-- Renamed arms are validated as the arms are. -/
theorem validateAll_rename (arms : List (TuplePattern Pattern)) :
    validateAll (arms.map (.rename r (.rename r)))
      = renameResult (.rename r) id (validateAll arms) := by
  induction arms with
  | nil => rfl
  | cons p arms ih =>
      rw [List.map_cons, validateAll, validateAll, validate_rename]
      apply renameResult_bind
      intro _
      exact ih

/-- Renamed arms are tried as the arms are. -/
theorem tryArms_rename (arms : List (TuplePattern Pattern)) (i : Nat) :
    tryArms (t.rename r (.rename r)) i (arms.map (.rename r (.rename r))) (c.rename r)
      = Prod.map (renameResult (.rename r) (Option.map (.rename r (.rename r))))
        (LayoutCache.rename r) (tryArms t i arms c) := by
  induction arms generalizing i c with
  | nil => rfl
  | cons p arms ih =>
      obtain ⟨hrun, hc'⟩ := (renamesTo_matchInto r t p).outcome hc
      rw [List.map_cons, tryArms, tryArms, hrun]
      generalize (p.matchInto t).outcome c = run at hc' ⊢
      obtain ⟨e | (bindings | failure), c'⟩ := run
      · rfl
      · rfl
      · -- the next arm starts from the cache that this one left
        exact ih hc' (i + 1)

/-- The same arm matches a renamed tuple, with renamed bindings. -/
theorem matchArms_rename (arms : List (TuplePattern Pattern)) :
    matchArms (arms.map (.rename r (.rename r))) (t.rename r (.rename r)) (c.rename r)
      = Prod.map (renameResult (.rename r) (Option.map (.rename r (.rename r))))
        (LayoutCache.rename r) (matchArms arms t c) := by
  unfold matchArms
  rw [validateAll_rename]
  cases validateAll arms with
  | error e => rfl
  | ok _ => exact tryArms_rename r hc t arms 0

end TuplePattern

end outcome

end TaggedTuple
