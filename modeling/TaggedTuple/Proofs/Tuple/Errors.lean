import TaggedTuple.Proofs.Tuple.FirstFault
import TaggedTuple.Proofs.Tuple.Lens

/-!
# What an error says is so

An error makes a statement about the call that reports it: which name came twice, which count was
expected, which field is not there, which index lies outside. `TupleError.TrueOf` spells the
statement out in terms of what the call was given and of the layout that it works on.

The errors of all operations are true of their calls, with one exception
(`FallibleCall.errors_true_but_of_backwards_slices`). A slice is refused if its range reaches past
the positional members and also if it runs backwards, and in both cases the end of the range is
reported. The end of a range that runs backwards may be an index of a member
(`FallibleCall.index_within_of_backwards_slice`).
-/

namespace TaggedTuple

variable {α : Type}

/-- A call of an operation that may report an error. -/
inductive FallibleCall (α : Type) where
  | buildKey (positional : Nat) (fields : List Symbol) (tag : Option Symbol)
  | buildLayout (positional : Nat) (fields : List Symbol) (tag : Option Symbol)
  | requestLayout (c : LayoutCache) (positional : Nat) (fields : List Symbol) (tag : Option Symbol)
  | construct (shared : SharedLayout) (positional : List α) (named : List (Symbol × α))
  | get (t : Tuple α) (i : Nat)
  | getField (t : Tuple α) (f : Symbol)
  | getKey (t : Tuple α) (key : TupleKey)
  | withUpdated (t : Tuple α) (key : TupleKey) (value : α)
  | slicePositional (t : Tuple α) (start stop : Nat) (c : LayoutCache)
  | projectNamed (t : Tuple α) (fields : List Symbol) (c : LayoutCache)
  | finish (b : TupleBuilder α) (c : LayoutCache)

namespace TupleKey

/-- The fields that an address names. -/
def names : TupleKey → List Symbol
  | .index _ => []
  | .field f => [f]

/-- The indices that an address gives. -/
def indices : TupleKey → List Nat
  | .index i => [i]
  | .field _ => []

end TupleKey

namespace FallibleCall

/-- The call reports an error. -/
def Fails : FallibleCall α → TupleError → Prop
  | .buildKey positional fields tag, e => LayoutKey.build positional fields tag = .error e
  | .buildLayout positional fields tag, e => Layout.build positional fields tag = .error e
  | .requestLayout c positional fields tag, e => (c.construct positional fields tag).1 = .error e
  | .construct shared positional named, e => Tuple.construct shared positional named = .error e
  | .get t i, e => t.get i = .error e
  | .getField t f, e => t.getField f = .error e
  | .getKey t key, e => t.getKey key = .error e
  | .withUpdated t key value, e => t.withUpdated key value = .error e
  | .slicePositional t start stop c, e => (t.slicePositional start stop c).1 = .error e
  | .projectNamed t fields c, e => (t.projectNamed fields c).1 = .error e
  | .finish b c, e => (b.finish c).1 = .error e

/-- The tuple that the call works on. -/
def tuple? : FallibleCall α → Option (Tuple α)
  | .get t _ | .getField t _ | .getKey t _ | .withUpdated t _ _ | .slicePositional t _ _ _
  | .projectNamed t _ _ => some t
  | _ => none

/-- The cache that serves the call. -/
def cache? : FallibleCall α → Option LayoutCache
  | .requestLayout c _ _ _ | .slicePositional _ _ _ c | .projectNamed _ _ c | .finish _ c => some c
  | _ => none

/-- The layout that the call works on. -/
def layout? : FallibleCall α → Option Layout
  | .construct shared _ _ => some shared.layout
  | call => call.tuple?.map Tuple.layout

/-- The names that the call is given, repetitions included. -/
def names : FallibleCall α → List Symbol
  | .buildKey _ fields _ | .buildLayout _ fields _ | .requestLayout _ _ fields _
  | .projectNamed _ fields _ => fields
  | .construct _ _ named => named.map Prod.fst
  | .getField _ f => [f]
  | .getKey _ key | .withUpdated _ key _ => key.names
  | .finish b _ => b.named.map Prod.fst
  | _ => []

/-- The indices that the call is given, both ends of a range among them. -/
def indices : FallibleCall α → List Nat
  | .get _ i => [i]
  | .getKey _ key | .withUpdated _ key _ => key.indices
  | .slicePositional _ start stop _ => [start, stop]
  | _ => []

/-- The positional values that the call is given. -/
def positional : FallibleCall α → List α
  | .construct _ positional _ => positional
  | .finish b _ => b.positional
  | _ => []

/-- The tuple was built by the operations and the cache is in a state that requests lead to. -/
structure Admissible (call : FallibleCall α) : Prop where
  tuple : ∀ t, call.tuple? = some t → t.Built
  cache : ∀ c, call.cache? = some c → c.Valid

/-- The call asks for a range that runs backwards and ends at the index of a member. -/
def SlicesBackwards : FallibleCall α → Prop
  | .slicePositional t start stop _ => stop < start ∧ stop < t.arity
  | _ => False

end FallibleCall

/-- What an error says is so. -/
def TupleError.TrueOf (call : FallibleCall α) : TupleError → Prop
  | .duplicateField f => 2 ≤ call.names.count f
  | .arityMismatch expected found =>
    ∃ l, call.layout? = some l ∧ expected = l.positional ∧ found = call.positional.length ∧
      found ≠ expected
  | .unknownField f => f ∈ call.names ∧ ∃ l, call.layout? = some l ∧ f ∉ l.fields
  | .missingField f => f ∉ call.names ∧ ∃ l, call.layout? = some l ∧ f ∈ l.fields
  | .indexOutOfRange index length =>
    index ∈ call.indices ∧ ∃ l, call.layout? = some l ∧ length = l.positional ∧ length ≤ index

namespace FallibleCall

variable {e : TupleError}

/-! ### Declarations -/

/-- The field that a search for repetitions finds is named twice. -/
theorem two_le_count {fields : List Symbol} {f : Symbol} (h : repeatedField? fields = some f) :
    2 ≤ fields.count f :=
  (repeatedField?_eq_some_iff.mp h).repeated

/-- The error of a layout is a field that the declaration names twice. -/
theorem count_of_build_eq_error {positional : Nat} {fields : List Symbol} {tag : Option Symbol}
    (h : Layout.build positional fields tag = .error e) :
    ∃ f, e = .duplicateField f ∧ 2 ≤ fields.count f := by
  cases hf : repeatedField? fields with
  | none =>
      rw [Layout.build_eq_ok (repeatedField?_eq_none_iff.mp hf)] at h
      cases h
  | some f =>
      rw [Layout.build_eq_error hf] at h
      cases h
      exact ⟨f, rfl, two_le_count hf⟩

/-- The error of a key is a field that the declaration names twice. -/
theorem count_of_key_build_eq_error {positional : Nat} {fields : List Symbol}
    {tag : Option Symbol} (h : LayoutKey.build positional fields tag = .error e) :
    ∃ f, e = .duplicateField f ∧ 2 ≤ fields.count f := by
  cases hf : repeatedField? fields with
  | none =>
      rw [LayoutKey.build_eq_ok (repeatedField?_eq_none_iff.mp hf)] at h
      cases h
  | some f =>
      rw [LayoutKey.build_eq_error hf] at h
      cases h
      exact ⟨f, rfl, two_le_count hf⟩

/-! ### Members -/

/-- The first fault of a construction is what the error says. -/
theorem trueOf_of_firstFault {shared : SharedLayout} {positional : List α}
    {named : List (Symbol × α)} (h : Tuple.FirstFault shared.layout positional named e) :
    e.TrueOf (.construct shared positional named) := by
  cases h with
  | count differs => exact ⟨shared.layout, rfl, rfl, rfl, differs⟩
  | @undeclared _ _ f a _ split _ absent =>
      have hmem : (f, a) ∈ named := by
        rw [split]
        exact List.mem_append_right _ List.mem_cons_self
      exact ⟨List.mem_map_of_mem hmem, shared.layout, rfl, absent⟩
  | @repeated done later f a _ split _ taken =>
      show 2 ≤ (named.map Prod.fst).count f
      have hdone : 1 ≤ (done.map Prod.fst).count f := List.one_le_count_iff.mpr taken
      rw [split, List.map_append, List.map_cons, List.count_append, List.count_cons_self]
      omega
  | unfilled _ _ split _ absent =>
      refine ⟨absent, shared.layout, rfl, ?_⟩
      rw [split]
      exact List.mem_append_right _ List.mem_cons_self

/-- An address that cannot be read is an index past the positional members or a field that the
layout lacks. -/
theorem trueOf_of_getKey {t : Tuple α} (ht : t.WellFormed) {key : TupleKey}
    (h : t.getKey key = .error e) {call : FallibleCall α} (hlayout : call.layout? = some t.layout)
    (hnames : call.names = key.names) (hindices : call.indices = key.indices) :
    e.TrueOf call := by
  cases key with
  | index i =>
      obtain ⟨hi, rfl⟩ := ht.getKey_index_eq_error_iff.mp h
      refine ⟨?_, t.layout, hlayout, rfl, hi⟩
      rw [hindices]
      exact List.mem_singleton_self i
  | field f =>
      obtain ⟨hf, rfl⟩ := ht.getKey_field_eq_error_iff.mp h
      refine ⟨?_, t.layout, hlayout, hf⟩
      rw [hnames]
      exact List.mem_singleton_self f

/-! ### Slices -/

/-- A slice that is refused reports the end of its range. -/
theorem slicePositional_eq_error_iff {t : Tuple α} (ht : t.WellFormed) {start stop : Nat}
    {c : LayoutCache} (hc : c.Valid) :
    (t.slicePositional start stop c).1 = .error e ↔
      (stop < start ∨ t.arity < stop) ∧ e = .indexOutOfRange stop t.arity := by
  have harity : t.positional.length = t.arity := ht.positional_length
  rcases t.slicePositional_cases start stop hc with ⟨hle, hle', u, c', hok, -⟩ | ⟨hrange, herror⟩
  · rw [hok]
    refine ⟨nofun, fun h => ?_⟩
    omega
  · rw [herror, Except.error.injEq]
    refine ⟨fun h => ⟨?_, h.symm⟩, fun h => h.2.symm⟩
    omega

/-! ### The law -/

/-- Every error is true of its call, unless the call slices backwards. -/
theorem trueOf_of_fails {call : FallibleCall α} (hcall : call.Admissible) (h : call.Fails e)
    (hforwards : ¬call.SlicesBackwards) : e.TrueOf call := by
  have htuple : ∀ t, call.tuple? = some t → t.WellFormed :=
    fun t ht => (hcall.tuple t ht).wellFormed
  have hcache := hcall.cache
  cases call with
  | buildKey positional fields tag =>
      obtain ⟨f, rfl, hf⟩ := count_of_key_build_eq_error h
      exact hf
  | buildLayout positional fields tag =>
      obtain ⟨f, rfl, hf⟩ := count_of_build_eq_error h
      exact hf
  | requestLayout c positional fields tag =>
      rcases (hcache c rfl).construct_cases positional fields tag with
        ⟨f, hf, herror⟩ | ⟨-, shared, c', hok, -⟩
      · cases (congrArg Prod.fst herror).symm.trans h
        exact two_le_count hf
      · cases (congrArg Prod.fst hok).symm.trans h
  | construct shared positional named =>
      exact trueOf_of_firstFault (Tuple.construct_eq_error_iff.mp h)
  | get t i =>
      have hget : t.getKey (.index i) = .error e := h
      exact trueOf_of_getKey (htuple t rfl) hget rfl rfl rfl
  | getField t f =>
      have hget : t.getKey (.field f) = .error e := h
      exact trueOf_of_getKey (htuple t rfl) hget rfl rfl rfl
  | getKey t key => exact trueOf_of_getKey (htuple t rfl) h rfl rfl rfl
  | withUpdated t key value =>
      have hget := (Tuple.withUpdated_eq_error_iff (htuple t rfl)).mp h
      exact trueOf_of_getKey (htuple t rfl) hget rfl rfl rfl
  | slicePositional t start stop c =>
      obtain ⟨hrange, rfl⟩ := (slicePositional_eq_error_iff (htuple t rfl) (hcache c rfl)).mp h
      refine ⟨List.mem_cons_of_mem _ (List.mem_singleton_self stop), t.layout, rfl, rfl, ?_⟩
      -- the stop is what the error names, and it is out of range unless the slice goes backwards
      have hforwards : ¬(stop < start ∧ stop < t.arity) := hforwards
      show t.arity ≤ stop
      omega
  | projectNamed t fields c =>
      rcases t.projectNamed_cases fields (hcache c rfl) with
        ⟨f, hf, herror⟩ | ⟨-, f, hf, hnone, c', herror, -⟩ | ⟨-, -, u, c', hok, -⟩
      · cases (congrArg Prod.fst herror).symm.trans h
        exact two_le_count hf
      · cases (congrArg Prod.fst herror).symm.trans h
        exact ⟨hf, t.layout, rfl, (htuple t rfl).field?_eq_none_iff.mp hnone⟩
      · cases (congrArg Prod.fst hok).symm.trans h
  | finish b c =>
      rcases b.finish_cases (hcache c rfl) with ⟨f, hf, herror⟩ | ⟨-, t, c', hok, -⟩
      · cases (congrArg Prod.fst herror).symm.trans h
        exact two_le_count hf
      · cases (congrArg Prod.fst hok).symm.trans h

/-- A slice that runs backwards and ends within the positional members reports an index that does
not lie outside. -/
theorem exists_index_of_slicesBackwards {call : FallibleCall α} (hcall : call.Admissible)
    (h : call.Fails e) (hbackwards : call.SlicesBackwards) :
    ∃ index l, call.layout? = some l ∧ index ∈ call.indices ∧ index < l.positional ∧
      e = .indexOutOfRange index l.positional := by
  cases call with
  | slicePositional t start stop c =>
      obtain ⟨-, rfl⟩ := (slicePositional_eq_error_iff (hcall.tuple t rfl).wellFormed
        (hcall.cache c rfl)).mp h
      exact ⟨stop, t.layout, rfl, List.mem_cons_of_mem _ (List.mem_singleton_self stop),
        hbackwards.2, rfl⟩
  | _ => exact hbackwards.elim

/-- Every error is true of its call, unless the call slices backwards. Then, too, the error names
the end of the range and the number of positional members, but the end is below that number. -/
theorem errors_true_but_of_backwards_slices {call : FallibleCall α} (hcall : call.Admissible)
    (h : call.Fails e) :
    (¬call.SlicesBackwards → e.TrueOf call) ∧
      (call.SlicesBackwards → ∃ index l, call.layout? = some l ∧ index ∈ call.indices ∧
        index < l.positional ∧ e = .indexOutOfRange index l.positional) :=
  ⟨trueOf_of_fails hcall h, exists_index_of_slicesBackwards hcall h⟩

/-- A construction with two faults reports the field that came twice, a slice that reaches past the
last member reports its end, and so does one that runs backwards. -/
theorem errors_true_but_of_backwards_slices_of_pair :
    let t : Tuple Nat := ⟨⟨0, 0, .ofPositional 2⟩, [1, 2], []⟩
    let pairs : List (Symbol × Nat) := [(⟨1⟩, 10), (⟨1⟩, 11), (⟨3⟩, 30)]
    let make : FallibleCall Nat := .construct ⟨0, 1, .descendingPair 0⟩ [] pairs
    let past : FallibleCall Nat := .slicePositional t 1 3 (.empty 1 true)
    let backwards : FallibleCall Nat := .slicePositional t 2 1 (.empty 1 true)
    (make.Fails (.duplicateField ⟨1⟩) ∧ (TupleError.duplicateField ⟨1⟩).TrueOf make) ∧
      (past.Fails (.indexOutOfRange 3 2) ∧ (TupleError.indexOutOfRange 3 2).TrueOf past) ∧
      backwards.Fails (.indexOutOfRange 1 2) ∧
        ∃ index l, backwards.layout? = some l ∧ index ∈ backwards.indices ∧ index < l.positional ∧
          TupleError.indexOutOfRange 1 2 = .indexOutOfRange index l.positional := by
  intro t pairs make past backwards
  have ht : t.Built := Tuple.built_iff.mpr ⟨rfl, rfl⟩
  have hc : (LayoutCache.empty 1 true).Valid := LayoutCache.valid_empty 1 true
  have hmake : make.Admissible := ⟨nofun, nofun⟩
  have hpast : past.Admissible :=
    ⟨fun _ h => Option.some.inj h ▸ ht, fun _ h => Option.some.inj h ▸ hc⟩
  have hbackwards : backwards.Admissible :=
    ⟨fun _ h => Option.some.inj h ▸ ht, fun _ h => Option.some.inj h ▸ hc⟩
  have hrepeated : make.Fails (.duplicateField ⟨1⟩) := by with_unfolding_all rfl
  have hend : past.Fails (.indexOutOfRange 3 2) := by with_unfolding_all rfl
  have hwithin : backwards.Fails (.indexOutOfRange 1 2) := by with_unfolding_all rfl
  have hforwards : ¬past.SlicesBackwards := fun h => absurd h.1 (by decide)
  exact ⟨⟨hrepeated, (errors_true_but_of_backwards_slices hmake hrepeated).1 id⟩,
    ⟨hend, (errors_true_but_of_backwards_slices hpast hend).1 hforwards⟩,
    hwithin, (errors_true_but_of_backwards_slices hbackwards hwithin).2 ⟨by decide, by decide⟩⟩

/-- A range that starts past the last member and ends before it: the index that is reported as out
of range is that of the last member. -/
theorem index_within_of_backwards_slice :
    let t : Tuple Nat := ⟨⟨0, 0, .ofPositional 2⟩, [1, 2], []⟩
    let call : FallibleCall Nat := .slicePositional t 5 1 (.empty 1 true)
    call.Admissible ∧ call.Fails (.indexOutOfRange 1 2) ∧ t.get 1 = .ok 2 ∧
      ¬(TupleError.indexOutOfRange 1 2).TrueOf call := by
  intro t call
  have ht : t.Built := Tuple.built_iff.mpr ⟨rfl, rfl⟩
  refine ⟨⟨fun _ h => Option.some.inj h ▸ ht,
    fun _ h => Option.some.inj h ▸ LayoutCache.valid_empty 1 true⟩, by with_unfolding_all rfl,
    rfl, ?_⟩
  rintro ⟨-, l, hl, -, hle⟩
  exact absurd hle (by decide)

end FallibleCall

end TaggedTuple
