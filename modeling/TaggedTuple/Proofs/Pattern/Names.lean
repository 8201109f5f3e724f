import TaggedTuple.Proofs.Pattern.Semantics

/-!
# What a pattern binds

`Pattern.boundNames` lists the names of a pattern from left to right, at every depth, and
`Pattern.occurrences` goes through a pattern and a value in the same order and tells for each
occurrence of a name where its value comes from (`Source`). A match that succeeds binds exactly
these names, in this order, to values that come from there (`Pattern.binds_matchInto`): which value
is matched and what the cache holds makes no difference to the names
(`Pattern.bindsNames_matchInto`).

`Matching.Ensures` says what holds of the names and values that a match binds, if it succeeds.
-/

namespace TaggedTuple

variable {α : Type}

/-! ### What a match ensures when it succeeds -/

namespace Matching

/-- When the match succeeds on a valid cache, what it binds has the property and the cache stays
valid. -/
def Ensures (m : Matching α) (P : List (Symbol × α) → Prop) : Prop :=
  ∀ (cache : LayoutCache) (bound : List (Symbol × α)) (cache' : LayoutCache), cache.Valid →
    m cache = (.ok bound, cache') → P bound ∧ cache'.Valid

variable {a b : Matching α} {P Q R : List (Symbol × α) → Prop}

/-- A match that binds nothing ensures what holds of no bindings. -/
theorem ensures_nothing (h : P []) : (nothing : Matching α).Ensures P := by
  intro cache bound cache' hc hm
  cases hm
  exact ⟨h, hc⟩

/-- Binding a value ensures what holds of that one binding. -/
theorem ensures_bind {name : Symbol} {value : α} (h : P [(name, value)]) :
    (bind name value).Ensures P := by
  intro cache bound cache' hc hm
  cases hm
  exact ⟨h, hc⟩

/-- A match that fails ensures anything of its bindings. -/
theorem FailsWith.ensures {failure : MatchFailure} (h : a.FailsWith failure) : a.Ensures P := by
  intro cache bound cache' hc hm
  obtain ⟨cache'', hfail, -⟩ := h cache hc
  cases hfail.symm.trans hm

/-- What both halves ensure gives what the sequence ensures. -/
theorem Ensures.followedBy (ha : a.Ensures P) (hb : b.Ensures Q)
    (h : ∀ bound more, P bound → Q more → R (bound ++ more)) : (a.followedBy b).Ensures R := by
  intro cache all cache' hc hm
  unfold Matching.followedBy at hm
  rcases hfirst : a cache with ⟨result, cache₁⟩
  rw [hfirst] at hm
  cases result with
  | error halt => cases hm
  | ok bound =>
      obtain ⟨hbound, hc₁⟩ := ha _ _ _ hc hfirst
      rcases hsecond : b cache₁ with ⟨result, cache₂⟩
      simp only [hsecond] at hm
      cases result with
      | error halt => cases hm
      | ok more =>
          obtain ⟨hmore, hc₂⟩ := hb _ _ _ hc₁ hsecond
          cases hm
          exact ⟨h bound more hbound hmore, hc₂⟩

/-- A capture ensures what holds of every tuple it can build. -/
theorem ensures_capture {wrap : Tuple α → α} {name : Symbol}
    {build : LayoutCache → Except TupleError (Tuple α) × LayoutCache}
    (h : ∀ cache u cache', cache.Valid → build cache = (.ok u, cache') →
      P [(name, wrap u)] ∧ cache'.Valid) : (capture wrap name build).Ensures P := by
  intro cache bound cache' hc hm
  unfold capture at hm
  rcases hbuild : build cache with ⟨result, cache₁⟩
  rw [hbuild] at hm
  cases result with
  | error e => cases hm
  | ok u =>
      cases hm
      exact h _ _ _ hc hbuild

end Matching

/-! ### The names -/

namespace Pattern

mutual

/-- The names that a pattern binds, from left to right. -/
def boundNames : Pattern → List Symbol
  | .wildcard => []
  | .bind name => [name]
  | .literal _ => []
  | .tuple ⟨_, positional, fields, namedRest⟩ =>
    positionalNames positional ++ (fieldNames fields ++ namedRest.toList)

/-- The names that positional parts bind. -/
def positionalNames : List (PositionalPattern Pattern) → List Symbol
  | [] => []
  | .sub p :: parts => p.boundNames ++ positionalNames parts
  | .rest name :: parts => name.toList ++ positionalNames parts

/-- The names that parts for fields bind. -/
def fieldNames : List (Symbol × FieldPattern Pattern) → List Symbol
  | [] => []
  | (key, .shorthand) :: parts => key :: fieldNames parts
  | (_, .sub p) :: parts => p.boundNames ++ fieldNames parts

end

/-- A tuple pattern binds the names of its parts and the rest of the fields. -/
theorem boundNames_tuple (p : TuplePattern Pattern) :
    boundNames (.tuple p)
      = positionalNames p.positional ++ (fieldNames p.fields ++ p.namedRest.toList) := by
  obtain ⟨tag, positional, fields, namedRest⟩ := p
  rw [boundNames]

/-- The names of two lists of positional parts, one behind the other. -/
theorem positionalNames_append (parts parts' : List (PositionalPattern Pattern)) :
    positionalNames (parts ++ parts') = positionalNames parts ++ positionalNames parts' := by
  induction parts with
  | nil => rfl
  | cons part parts ih =>
      cases part <;> rw [List.cons_append, positionalNames, positionalNames, ih, List.append_assoc]

/-- Without rest markers, the names are those of the sub-patterns. -/
theorem positionalNames_subs (ps : List Pattern) :
    positionalNames (ps.map .sub) = ps.flatMap boundNames := by
  induction ps with
  | nil => rfl
  | cons p ps ih => rw [List.map_cons, positionalNames, ih, List.flatMap_cons]

end Pattern

/-! ### Where the values come from -/

/-- What a name is bound to: a part of the value that is matched, or a capture of positional members
or of the fields of a tuple that have none of the keys. -/
inductive Source where
  | value (v : Value)
  | rest (values : List Value)
  | unmentioned (t : Tuple Value) (keys : List Symbol)

/-- The value comes from the source. A capture is an untagged tuple of exactly the members that are
captured. -/
def Source.Gives : Source → Value → Prop
  | .value v, w => w = v
  | .rest values, w => ∃ u : Tuple Value, w = .tuple u ∧ u.HasMembers none values fun _ => none
  | .unmentioned t keys, w => ∃ u : Tuple Value, w = .tuple u ∧
    u.HasMembers none [] fun f => if f ∈ keys then none else t.field? f

namespace Pattern

mutual

/-- The names that a pattern binds on a value, from left to right, each with the source of its
value. -/
def occurrences : Pattern → Value → List (Symbol × Source)
  | .wildcard, _ => []
  | .bind name, v => [(name, .value v)]
  | .literal _, _ => []
  | .tuple ⟨_, positional, fields, namedRest⟩, v =>
    match v.tuple? with
    | none => []
    | some t => positionalOccurrences positional t.positional ++ (fieldOccurrences fields t ++
      namedRest.toList.map fun name => (name, .unmentioned t (fields.map Prod.fst)))

/-- The names that positional parts bind. Sub-patterns take the values one by one; a rest marker
takes as many as leave one for each part behind it. -/
def positionalOccurrences :
    List (PositionalPattern Pattern) → List Value → List (Symbol × Source)
  | [], _ => []
  | .sub _ :: parts, [] => positionalOccurrences parts []
  | .sub p :: parts, v :: values => p.occurrences v ++ positionalOccurrences parts values
  | .rest name :: parts, values =>
    (name.toList.map fun name => (name, .rest (values.take (values.length - parts.length)))) ++
      positionalOccurrences parts (values.drop (values.length - parts.length))

/-- The names that parts for fields bind. -/
def fieldOccurrences :
    List (Symbol × FieldPattern Pattern) → Tuple Value → List (Symbol × Source)
  | [], _ => []
  | (key, .shorthand) :: parts, t =>
    ((t.field? key).toList.map fun v => (key, .value v)) ++ fieldOccurrences parts t
  | (key, .sub p) :: parts, t =>
    match t.field? key with
    | none => fieldOccurrences parts t
    | some v => p.occurrences v ++ fieldOccurrences parts t

end

/-- The occurrences in a tuple pattern: positional parts, fields, the rest of the fields. -/
theorem occurrences_tuple (p : TuplePattern Pattern) (t : Tuple Value) :
    occurrences (.tuple p) (.tuple t) = positionalOccurrences p.positional t.positional ++
      (fieldOccurrences p.fields t ++
        p.namedRest.toList.map fun name => (name, .unmentioned t (p.fields.map Prod.fst))) := by
  obtain ⟨tag, positional, fields, namedRest⟩ := p
  rw [occurrences]
  rfl

/-- Sub-patterns in a row take values in a row. -/
theorem positionalOccurrences_subs {ps : List Pattern} {values : List Value}
    (hlength : ps.length ≤ values.length) (parts : List (PositionalPattern Pattern)) :
    positionalOccurrences (ps.map .sub ++ parts) values
      = ((ps.zip values).flatMap fun x => x.1.occurrences x.2)
        ++ positionalOccurrences parts (values.drop ps.length) := by
  induction ps generalizing values with
  | nil => rfl
  | cons p ps ih =>
      cases values with
      | nil => cases hlength
      | cons value values =>
          rw [List.map_cons, List.cons_append, positionalOccurrences,
            ih (Nat.le_of_succ_le_succ hlength), List.zip_cons_cons, List.flatMap_cons,
            List.append_assoc, List.length_cons, List.drop_succ_cons]

end Pattern

/-! ### A match binds them -/

namespace Matching

/-- Exactly these names are bound, in this order. -/
def BindsNames (m : Matching α) (names : List Symbol) : Prop :=
  m.Ensures fun bound => bound.map Prod.fst = names

/-- Exactly these names are bound, in this order, to values that come from these sources. -/
def Binds (m : Matching Value) (occurrences : List (Symbol × Source)) (names : List Symbol) :
    Prop :=
  m.Ensures fun bound => bound.map Prod.fst = names ∧
    List.Forall₂ (fun x y => x.1 = y.1 ∧ x.2.Gives y.2) occurrences bound

section binds

variable {a b : Matching Value} {occurrences occurrences' : List (Symbol × Source)}
  {names names' : List Symbol}

/-- A match that binds the occurrences binds their names. -/
theorem Binds.bindsNames (h : a.Binds occurrences names) : a.BindsNames names := by
  intro cache bound cache' hc hm
  obtain ⟨⟨hnames, -⟩, hc'⟩ := h cache bound cache' hc hm
  exact ⟨hnames, hc'⟩

/-- A match that binds nothing has no occurrences. -/
theorem binds_nothing : (nothing : Matching Value).Binds [] [] := ensures_nothing ⟨rfl, .nil⟩

/-- Binding a value is one occurrence. -/
theorem binds_bind (name : Symbol) (v : Value) :
    (bind name v).Binds [(name, .value v)] [name] :=
  ensures_bind ⟨rfl, .cons ⟨rfl, rfl⟩ .nil⟩

/-- Occurrences add up along a sequence of matches. -/
theorem Binds.followedBy (ha : a.Binds occurrences names) (hb : b.Binds occurrences' names') :
    (a.followedBy b).Binds (occurrences ++ occurrences') (names ++ names') := by
  refine Ensures.followedBy ha hb ?_
  rintro bound more ⟨hnames, hbound⟩ ⟨hnames', hmore⟩
  exact ⟨by rw [List.map_append, hnames, hnames'], List.rel_append hbound hmore⟩

/-- Each sub-pattern binds what it binds on its value. -/
theorem binds_inOrder {ps : List Pattern} {values : List Value}
    (hlength : ps.length ≤ values.length)
    (h : ∀ x ∈ ps.zip values, (x.1.matchInto x.2).Binds (x.1.occurrences x.2) x.1.boundNames) :
    (inOrder Pattern.matchInto (ps.zip values)).Binds
      ((ps.zip values).flatMap fun x => x.1.occurrences x.2) (ps.flatMap Pattern.boundNames) := by
  induction ps generalizing values with
  | nil => exact binds_nothing
  | cons p ps ih =>
      cases values with
      | nil => cases hlength
      | cons value values =>
          rw [List.zip_cons_cons, List.forall_mem_cons] at h
          rw [List.zip_cons_cons, List.flatMap_cons, List.flatMap_cons]
          exact h.1.followedBy (ih (Nat.le_of_succ_le_succ hlength) h.2)

/-- The capture of a slice is an occurrence of the positional rest. -/
theorem binds_slicePositional (t : Tuple Value) (start stop : Nat) (name : Symbol) :
    (capture .tuple name (t.slicePositional start stop)).Binds
      [(name, .rest ((t.positional.take stop).drop start))] [name] := by
  refine ensures_capture fun cache u cache' hc hbuild => ?_
  obtain ⟨hmembers, hc'⟩ := Tuple.hasMembers_of_slicePositional hc hbuild
  exact ⟨⟨rfl, .cons ⟨rfl, u, rfl, hmembers⟩ .nil⟩, hc'⟩

end binds

end Matching

namespace TuplePattern

open Matching (Binds)

/-- Parts whose values bind what their sub-patterns bind on them. -/
theorem binds_matchFields {t : Tuple Value} {parts : List (Symbol × FieldPattern Pattern)}
    (h : ∀ key q v, (key, .sub q) ∈ parts → t.field? key = some v →
      (q.matchInto v).Binds (q.occurrences v) q.boundNames) :
    (matchFields t (parts.map fun x => (x.1, x.2.map Pattern.matchInto))).Binds
      (Pattern.fieldOccurrences parts t) (Pattern.fieldNames parts) := by
  induction parts with
  | nil => exact Matching.binds_nothing
  | cons part parts ih =>
      obtain ⟨key, part⟩ := part
      have htail := ih fun key q v hq => h key q v (List.mem_cons_of_mem _ hq)
      rw [List.map_cons, matchFields]
      cases hv : t.field? key with
      | none => exact (Matching.failsWith_fail _).ensures
      | some v =>
          cases part with
          | shorthand =>
              rw [Pattern.fieldOccurrences, Pattern.fieldNames, hv]
              exact (Matching.binds_bind key v).followedBy htail
          | sub q =>
              rw [Pattern.fieldOccurrences, Pattern.fieldNames, hv]
              exact (h key q v List.mem_cons_self hv).followedBy htail

/-- The capture of the fields that are left is an occurrence, if the pattern asks for it. -/
theorem binds_matchNamedRest (p : TuplePattern Pattern) {t : Tuple Value} (ht : t.WellFormed) :
    (matchNamedRest .tuple (p.map Pattern.matchInto) t).Binds
      (p.namedRest.toList.map fun name => (name, .unmentioned t (p.fields.map Prod.fst)))
      p.namedRest.toList := by
  unfold matchNamedRest
  rw [unmentioned_map, show (p.map Pattern.matchInto).namedRest = p.namedRest from rfl]
  cases p.namedRest with
  | none => exact Matching.binds_nothing
  | some name =>
      refine Matching.ensures_capture fun cache u cache' hc hbuild => ?_
      obtain ⟨u', cache'', hproject, hc', hmembers⟩ := exists_projectNamed_unmentioned p ht hc
      cases hproject.symm.trans hbuild
      exact ⟨⟨rfl, .cons ⟨rfl, u, rfl, hmembers⟩ .nil⟩, hc'⟩

section parts

variable {p : TuplePattern Pattern} (hp : p.SingleRest) {t : Tuple Value} (ht : t.WellFormed)
  (hcount : p.CountFits t.arity)
include hp ht hcount

/-- The capture of the rest binds the name of the marker, which stands between the leading and the
trailing sub-patterns. -/
theorem exists_binds_captureRest :
    ∃ occurrences names, ((p.map Pattern.matchInto).captureRest .tuple t).Binds occurrences names ∧
      Pattern.positionalNames p.positional = p.leading.flatMap Pattern.boundNames
        ++ (names ++ p.trailing.flatMap Pattern.boundNames) ∧
      Pattern.positionalOccurrences p.positional t.positional
        = ((p.leading.zip t.positional).flatMap fun x => x.1.occurrences x.2)
          ++ (occurrences ++ (p.trailing.zip (t.positional.drop
            (t.positional.length - p.trailing.length))).flatMap fun x => x.1.occurrences x.2) := by
  have harity : t.arity = t.positional.length := ht.positional_length.symm
  have hlength := hp.length_le hcount
  rw [harity] at hlength
  rcases hp.positional_cases with ⟨-, hparts, htrailing⟩ | ⟨-, name, hparts⟩
  · -- without a marker nothing is captured, and all sub-patterns are leading
    have hfind : (p.map Pattern.matchInto).positional.find? (·.isRest) = none := by
      simp [map, hparts, PositionalPattern.isRest_map]
    refine ⟨[], [], ?_, ?_, ?_⟩
    · unfold captureRest
      rw [hfind]
      exact Matching.binds_nothing
    · rw [htrailing, hparts, Pattern.positionalNames_subs]
      simp
    · rw [htrailing, hparts, ← List.append_nil (p.leading.map PositionalPattern.sub),
        Pattern.positionalOccurrences_subs (Nat.le_trans (Nat.le_add_right ..) hlength)]
      simp [Pattern.positionalOccurrences]
  · -- the marker stands for the values between those of the leading and the trailing sub-patterns
    have hfind : (p.map Pattern.matchInto).positional.find? (·.isRest) = some (.rest name) := by
      simp [map, hparts, PositionalPattern.map, Function.comp_def]
    have hstop : t.positional.length - p.leading.length - p.trailing.length
        = t.positional.length - p.trailing.length - p.leading.length := by omega
    refine ⟨name.toList.map fun name => (name, .rest ((t.positional.take
      (t.positional.length - p.trailing.length)).drop p.leading.length)), name.toList, ?_, ?_, ?_⟩
    · unfold captureRest
      rw [hfind]
      cases name with
      | none => exact Matching.binds_nothing
      | some name =>
          rw [leading_map, trailing_map, List.length_map, List.length_map, harity]
          exact Matching.binds_slicePositional t _ _ name
    · conv_lhs => rw [hparts]
      rw [Pattern.positionalNames_append, Pattern.positionalNames, Pattern.positionalNames_subs,
        Pattern.positionalNames_subs]
    · conv_lhs => rw [hparts]
      rw [Pattern.positionalOccurrences_subs (Nat.le_trans (Nat.le_add_right ..) hlength),
        Pattern.positionalOccurrences, List.length_map, List.length_drop, List.drop_drop, hstop,
        ← List.drop_take, Nat.add_sub_cancel' (by omega),
        ← List.append_nil (p.trailing.map PositionalPattern.sub),
        Pattern.positionalOccurrences_subs (by rw [List.length_drop]; omega)]
      simp [Pattern.positionalOccurrences]

/-- A tuple pattern binds its occurrences when its sub-patterns bind theirs. -/
theorem binds_matchParts (htag : p.TagFits t.tag)
    (hpositional : ∀ x ∈ p.aligned t.positional,
      (x.1.matchInto x.2).Binds (x.1.occurrences x.2) x.1.boundNames)
    (hfields : ∀ key q v, (key, .sub q) ∈ p.fields → t.field? key = some v →
      (q.matchInto v).Binds (q.occurrences v) q.boundNames) :
    (matchParts .tuple (p.map Pattern.matchInto) t).Binds
      (Pattern.occurrences (.tuple p) (.tuple t)) (Pattern.boundNames (.tuple p)) := by
  obtain ⟨occurrences, names, hcapture, hnames, hoccurrences⟩ :=
    exists_binds_captureRest hp ht hcount
  have hlength : p.leading.length + p.trailing.length ≤ t.positional.length := by
    rw [ht.positional_length]
    exact hp.length_le hcount
  rw [aligned, List.forall_mem_append] at hpositional
  rw [matchParts_map_eq hp ht htag hcount, Pattern.boundNames_tuple, Pattern.occurrences_tuple,
    hnames, hoccurrences]
  simp only [List.append_assoc]
  refine (Matching.binds_inOrder (by omega) hpositional.1).followedBy ?_
  refine hcapture.followedBy ?_
  refine (Matching.binds_inOrder ?_ hpositional.2).followedBy ?_
  · rw [List.length_drop]
    omega
  · exact (binds_matchFields hfields).followedBy (binds_matchNamedRest p ht)

end parts

end TuplePattern

/-- A match of a valid pattern that succeeds binds the names of the pattern to values from their
sources. -/
theorem Pattern.binds_matchInto (p : Pattern) (hp : p.validate = .ok ()) {v : Value}
    (hv : v.WellFormed) : (p.matchInto v).Binds (p.occurrences v) p.boundNames := by
  induction p using Pattern.induction generalizing v with
  | wildcard => exact Matching.binds_nothing
  | bind name => exact Matching.binds_bind name v
  | literal l =>
      rw [matchInto]
      split_ifs
      · exact Matching.binds_nothing
      · exact (Matching.failsWith_fail _).ensures
  | tuple p ihPositional ihFields =>
      rw [validate_tuple_eq] at hp
      obtain ⟨hrest, hpositional, hfields⟩ := TuplePattern.validate_eq_ok_iff.mp hp
      cases v with
      | int n => exact (Matching.failsWith_fail _).ensures
      | str s => exact (Matching.failsWith_fail _).ensures
      | tuple t =>
          have ht := (Value.wellFormed_tuple_iff.mp hv).1
          rw [matchInto_tuple]
          by_cases htag : p.TagFits t.tag
          swap
          · obtain ⟨requirement, wanted, hrequired, hwanted, hrejects⟩ :=
              TuplePattern.exists_of_not_tagFits htag
            exact (TuplePattern.failsWith_matchParts_of_tag hrequired hwanted hrejects).ensures
          by_cases hcount : p.CountFits t.arity
          swap
          · exact (TuplePattern.failsWith_matchParts_of_count hrest htag hcount).ensures
          apply TuplePattern.binds_matchParts hrest ht hcount htag
          · intro x hx
            obtain ⟨hsub, hvalue⟩ := TuplePattern.mem_of_mem_aligned hx
            exact ihPositional x.1 hsub (hpositional x.1 hsub) (hv.of_mem_positional hvalue)
          · intro key q v hq hfield
            exact ihFields key q hq (hfields key q hq) (hv.of_field? hfield)

/-- A match binds the names of the pattern, in their order. -/
theorem Pattern.bindsNames_matchInto (p : Pattern) (hp : p.validate = .ok ()) {v : Value}
    (hv : v.WellFormed) : (p.matchInto v).BindsNames p.boundNames :=
  (p.binds_matchInto hp hv).bindsNames

end TaggedTuple
