import Mathlib.Data.List.Induction
import TaggedTuple.Proofs.Tuple.Built

/-!
# What a construction accepts, and what it reports

A construction takes as many positional values as its layout has positional members, and pairs that
name each field of the layout once, in any order. `Tuple.FirstFault` says what is the first thing
that is wrong with other members: the number of positional values, then the first pair that cannot
be placed, then the first declared field without a pair. It speaks of the lists alone, not of
places.

`construct_accepts_complete_members` says that the construction reports exactly these faults, and
that what it makes otherwise depends on the pairs but not on their order.
-/

namespace TaggedTuple

namespace Tuple

variable {α : Type}

/-! ### Faults -/

/-- The pairs name declared fields, and none of them twice. -/
structure Placeable (fields : List Symbol) (pairs : List (Symbol × α)) : Prop where
  declared : ∀ x ∈ pairs, x.1 ∈ fields
  distinct : (pairs.map Prod.fst).Nodup

/-- What is wrong first with the members that are given to a layout. -/
inductive FirstFault (l : Layout) (positional : List α) (named : List (Symbol × α)) :
    TupleError → Prop
  | count (differs : positional.length ≠ l.positional) :
    FirstFault l positional named (.arityMismatch l.positional positional.length)
  | undeclared {done later : List (Symbol × α)} {f : Symbol} {a : α}
    (count : positional.length = l.positional) (split : named = done ++ (f, a) :: later)
    (before : Placeable l.fields done) (absent : f ∉ l.fields) :
    FirstFault l positional named (.unknownField f)
  | repeated {done later : List (Symbol × α)} {f : Symbol} {a : α}
    (count : positional.length = l.positional) (split : named = done ++ (f, a) :: later)
    (before : Placeable l.fields done) (taken : f ∈ done.map Prod.fst) :
    FirstFault l positional named (.duplicateField f)
  | unfilled {done later : List Symbol} {f : Symbol} (count : positional.length = l.positional)
    (placeable : Placeable l.fields named) (split : l.fields = done ++ f :: later)
    (before : ∀ g ∈ done, g ∈ named.map Prod.fst) (absent : f ∉ named.map Prod.fst) :
    FirstFault l positional named (.missingField f)

section placeable

variable {fields : List Symbol} {pairs : List (Symbol × α)}

/-- No pairs can always be placed. -/
theorem placeable_nil : Placeable fields ([] : List (Symbol × α)) :=
  ⟨fun _ hx => absurd hx List.not_mem_nil, List.nodup_nil⟩

/-- A pair for a declared field without a value can be placed behind the others. -/
theorem Placeable.concat (h : Placeable fields pairs) {f : Symbol} (hdeclared : f ∈ fields)
    (hfree : f ∉ pairs.map Prod.fst) (a : α) : Placeable fields (pairs ++ [(f, a)]) where
  declared x hx := by
    rcases List.mem_append.mp hx with hx | hx
    · exact h.declared x hx
    · rw [List.mem_singleton.mp hx]
      exact hdeclared
  distinct := by
    rw [List.map_append, List.nodup_append]
    refine ⟨h.distinct, List.nodup_singleton f, ?_⟩
    rintro g hg g' hg' rfl
    obtain rfl : g = f := List.mem_singleton.mp hg'
    exact hfree hg

/-- Either all pairs can be placed, or there is a first one that cannot. -/
theorem placeable_or_exists_first (fields : List Symbol) (pairs : List (Symbol × α)) :
    Placeable fields pairs ∨ ∃ done f a later, pairs = done ++ (f, a) :: later ∧
      Placeable fields done ∧ (f ∉ fields ∨ f ∈ done.map Prod.fst) := by
  induction pairs using List.reverseRecOn with
  | nil => exact .inl placeable_nil
  | append_singleton pairs x ih =>
      obtain ⟨f, a⟩ := x
      rcases ih with hpairs | ⟨done, g, b, later, rfl, hdone, hfault⟩
      · by_cases hfault : f ∉ fields ∨ f ∈ pairs.map Prod.fst
        · exact .inr ⟨pairs, f, a, [], rfl, hpairs, hfault⟩
        · rw [not_or, not_not] at hfault
          exact .inl (hpairs.concat hfault.1 hfault.2 a)
      · exact .inr ⟨done, g, b, later ++ [(f, a)], by simp, hdone, hfault⟩

/-- Pairs that can be placed and leave no field out name the fields once each. -/
theorem Placeable.perm (h : Placeable fields pairs) (hfields : fields.Nodup)
    (hall : ∀ f ∈ fields, f ∈ pairs.map Prod.fst) : (pairs.map Prod.fst).Perm fields := by
  rw [List.perm_ext_iff_of_nodup h.distinct hfields]
  intro f
  refine ⟨fun hf => ?_, hall f⟩
  obtain ⟨x, hx, rfl⟩ := List.mem_map.mp hf
  exact h.declared x hx

end placeable

/-! ### The places at a fault -/

/-- Pairs are placed one after the other. -/
theorem fill_append (l : Layout) (places : List (Option α)) (pairs more : List (Symbol × α)) :
    fill l places (pairs ++ more) = fill l places pairs >>= fun places => fill l places more := by
  induction pairs generalizing places with
  | nil => rfl
  | cons x pairs ih =>
      obtain ⟨f, a⟩ := x
      simp only [List.cons_append, fill]
      cases l.positionOf? f with
      | none => rfl
      | some position =>
          dsimp only
          split_ifs
          · rfl
          · exact ih _

section places

variable {shared : SharedLayout} {positional : List α} {named : List (Symbol × α)}

/-- Pairs that can be placed end up under their fields. -/
theorem Placeable.fill_eq {l : Layout} {pairs : List (Symbol × α)}
    (h : Placeable l.fields pairs) :
    fill l (List.replicate l.fields.length none) pairs
      = .ok (l.fields.map fun f => pairs.lookup f) := by
  rw [replicate_eq_map_lookup]
  exact fill_eq_ok l pairs [] h.distinct h.declared

/-- The first pair that cannot be placed is the error. -/
theorem Placeable.fill_eq_error {l : Layout} {done : List (Symbol × α)}
    (h : Placeable l.fields done) (f : Symbol) (a : α) (later : List (Symbol × α)) :
    (f ∉ l.fields → fill l (List.replicate l.fields.length none) (done ++ (f, a) :: later)
      = .error (.unknownField f)) ∧
    (f ∈ done.map Prod.fst →
      fill l (List.replicate l.fields.length none) (done ++ (f, a) :: later)
        = .error (.duplicateField f)) := by
  have hsplit : fill l (List.replicate l.fields.length none) (done ++ (f, a) :: later)
      = fill l (l.fields.map fun g => done.lookup g) ((f, a) :: later) := by
    rw [fill_append, h.fill_eq]
    rfl
  rw [hsplit, fill]
  constructor
  · intro hf
    rw [l.positionOf?_eq_none_iff.mpr hf]
  · intro hf
    have hdeclared : f ∈ l.fields := by
      obtain ⟨x, hx, rfl⟩ := List.mem_map.mp hf
      exact h.declared x hx
    obtain ⟨i, hfind, -⟩ := Layout.exists_positionOf? hdeclared
    have hget := l.positionOf?_eq_some_iff.mp hfind
    have htaken : ((l.fields.map fun g => done.lookup g)[i]?.bind id).isSome = true := by
      rw [List.getElem?_map, hget]
      exact lookup_isSome_iff_mem_keys.mpr hf
    rw [hfind]
    exact if_pos htaken

/-- The first field whose place is empty is the error. -/
theorem collect_eq_error {g : Symbol → Option α} {done : List Symbol} {f : Symbol}
    (hdone : ∀ x ∈ done, (g x).isSome = true) (hf : g f = none) (later : List Symbol) :
    collect (done ++ f :: later) ((done ++ f :: later).map g) = .error (.missingField f) := by
  induction done with
  | nil => simp only [List.nil_append, List.map_cons, collect, hf]
  | cons x done ih =>
      obtain ⟨hx, hdone⟩ := List.forall_mem_cons.mp hdone
      obtain ⟨a, ha⟩ := Option.isSome_iff_exists.mp hx
      simp only [List.cons_append, List.map_cons, collect, ha, ih hdone]
      rfl

/-- The first fault is what the construction reports. -/
theorem FirstFault.construct_eq {e : TupleError} (h : FirstFault shared.layout positional named e) :
    construct shared positional named = .error e := by
  unfold construct
  cases h with
  | count differs => exact if_neg differs
  | undeclared count split before absent =>
      simp only [if_pos count, split, (before.fill_eq_error _ _ _).1 absent]
      rfl
  | repeated count split before taken =>
      simp only [if_pos count, split, (before.fill_eq_error _ _ _).2 taken]
      rfl
  | @unfilled _ later _ count placeable split before absent =>
      have hcollect := collect_eq_error (g := fun f => named.lookup f)
        (fun g hg => lookup_isSome_iff_mem_keys.mpr (before g hg))
        (lookup_eq_none_iff_not_mem_keys.mpr absent) later
      rw [← split] at hcollect
      simp only [if_pos count, placeable.fill_eq, bind, Except.bind, hcollect]

/-- Either something is wrong first, or the members are complete. -/
theorem firstFault_or_complete (l : Layout) (positional : List α) (named : List (Symbol × α)) :
    (∃ e, FirstFault l positional named e) ∨
      positional.length = l.positional ∧ (named.map Prod.fst).Perm l.fields := by
  by_cases count : positional.length = l.positional
  swap
  · exact .inl ⟨_, .count count⟩
  rcases placeable_or_exists_first l.fields named with
    placeable | ⟨done, f, a, later, split, before, absent | taken⟩
  · rcases forall_or_exists_first (· ∈ named.map Prod.fst) l.fields with
      hall | ⟨done, f, later, split, before, absent⟩
    · exact .inr ⟨count, placeable.perm l.fields_nodup hall⟩
    · exact .inl ⟨_, .unfilled count placeable split before absent⟩
  · exact .inl ⟨_, .undeclared count split before absent⟩
  · exact .inl ⟨_, .repeated count split before taken⟩

/-- The two outcomes of a construction. -/
theorem construct_cases (shared : SharedLayout) (positional : List α)
    (named : List (Symbol × α)) :
    (∃ e, FirstFault shared.layout positional named e ∧
      construct shared positional named = .error e) ∨
    (positional.length = shared.layout.positional ∧
      (named.map Prod.fst).Perm shared.layout.fields ∧
      ∃ t, construct shared positional named = .ok t ∧ t.shared = shared ∧
        t.HasMembers shared.layout.tag positional fun f => named.lookup f) := by
  rcases firstFault_or_complete shared.layout positional named with ⟨e, he⟩ | ⟨count, hnamed⟩
  · exact .inl ⟨e, he, he.construct_eq⟩
  · obtain ⟨t, hconstruct, hmembers⟩ := exists_construct count hnamed
    exact .inr ⟨count, hnamed, t, hconstruct, shared_of_construct hconstruct, hmembers⟩

/-- Construction fails with the first fault. -/
theorem construct_eq_error_iff {e : TupleError} :
    construct shared positional named = .error e ↔
      FirstFault shared.layout positional named e := by
  refine ⟨fun herror => ?_, FirstFault.construct_eq⟩
  rcases construct_cases shared positional named with ⟨e', he', h⟩ | ⟨-, -, t, h, -⟩
  · cases h.symm.trans herror
    exact he'
  · cases h.symm.trans herror

/-- Construction succeeds exactly on complete members. -/
theorem exists_construct_eq_ok_iff :
    (∃ t, construct shared positional named = .ok t) ↔
      positional.length = shared.layout.positional ∧
        (named.map Prod.fst).Perm shared.layout.fields := by
  rcases construct_cases shared positional named with ⟨e, -, h⟩ | ⟨count, hnamed, t, h, -⟩
  · refine ⟨fun ⟨t, ht⟩ => ?_, fun ⟨count, hnamed⟩ => ?_⟩
    · cases h.symm.trans ht
    · obtain ⟨t, ht, -⟩ := exists_construct count hnamed
      exact ⟨t, ht⟩
  · exact ⟨fun _ => ⟨count, hnamed⟩, fun _ => ⟨t, h⟩⟩

section made

variable {t : Tuple α} (h : construct shared positional named = .ok t)
include h

/-- What a construction makes. -/
theorem hasMembers_of_construct :
    t.shared = shared ∧ (named.map Prod.fst).Nodup ∧
      t.HasMembers shared.layout.tag positional fun f => named.lookup f := by
  rcases construct_cases shared positional named with ⟨e, -, h'⟩ | ⟨-, hnamed, u, h', hshared, hu⟩
  · cases h'.symm.trans h
  · cases h'.symm.trans h
    exact ⟨hshared, hnamed.nodup_iff.mpr shared.layout.fields_nodup, hu⟩

/-- The order of the pairs makes no difference. -/
theorem construct_eq_of_perm {named' : List (Symbol × α)} (hperm : named.Perm named') :
    construct shared positional named' = .ok t := by
  obtain ⟨count, hnamed⟩ := exists_construct_eq_ok_iff.mp ⟨t, h⟩
  obtain ⟨u, hu⟩ := exists_construct_eq_ok_iff.mpr
    ⟨count, (hperm.map Prod.fst).symm.trans hnamed⟩
  obtain ⟨hshared, hnodup, ht⟩ := hasMembers_of_construct h
  obtain ⟨hshared', -, hmembers⟩ := hasMembers_of_construct hu
  rw [hu]
  congr 1
  apply eq_of_field?_eq hmembers.wellFormed ht.wellFormed (hshared'.trans hshared.symm)
  · rw [hmembers.positional_eq, ht.positional_eq]
  · intro f
    rw [hmembers.field?_eq, ht.field?_eq]
    exact (lookup_eq_of_perm hnodup hperm f).symm

/-- The positional members given are read back. -/
theorem get_of_construct (i : Nat) (a : α) : t.get i = .ok a ↔ positional[i]? = some a := by
  obtain ⟨-, -, hmembers⟩ := hasMembers_of_construct h
  rw [← hmembers.positional_eq]
  exact hmembers.wellFormed.getKey_index_eq_ok_iff

/-- The named members given are read back. -/
theorem getField_of_construct (f : Symbol) (a : α) : t.getField f = .ok a ↔ (f, a) ∈ named := by
  obtain ⟨-, hnodup, hmembers⟩ := hasMembers_of_construct h
  rw [getField_eq_ok_iff, hmembers.field?_eq, lookup_eq_some_iff_mem hnodup]

end made

end places

/-! ### The law -/

/-- A construction reports the first fault of the members that it is given. It succeeds exactly on
as many positional values as the layout asks for with one pair for each field, and then makes a
tuple on that very layout that reads back what it was given. The order of the pairs makes no
difference. -/
theorem construct_accepts_complete_members (shared : SharedLayout) (positional : List α)
    (named : List (Symbol × α)) :
    (∀ e, construct shared positional named = .error e ↔
      FirstFault shared.layout positional named e) ∧
    ((∃ t, construct shared positional named = .ok t) ↔
      positional.length = shared.layout.positional ∧
        (named.map Prod.fst).Perm shared.layout.fields) ∧
    ∀ t, construct shared positional named = .ok t →
      t.shared = shared ∧ (∀ i a, t.get i = .ok a ↔ positional[i]? = some a) ∧
        (∀ f a, t.getField f = .ok a ↔ (f, a) ∈ named) ∧
          ∀ named', named.Perm named' → construct shared positional named' = .ok t := by
  refine ⟨fun e => construct_eq_error_iff, exists_construct_eq_ok_iff, fun t h => ?_⟩
  exact ⟨(hasMembers_of_construct h).1, get_of_construct h, getField_of_construct h,
    fun named' => construct_eq_of_perm h⟩

/-- Two fields in either order, and then with faults: the first of the pairs that cannot be placed
comes before the field that has no pair. -/
theorem construct_accepts_complete_members_of_two_fields :
    let shared : SharedLayout := ⟨0, 0, .descendingPair 0⟩
    let t : Tuple Nat := ⟨shared, [], [20, 10]⟩
    let pairs : List (Symbol × Nat) := [(⟨1⟩, 10), (⟨2⟩, 20)]
    construct shared [] pairs = .ok t ∧ construct shared [] [(⟨2⟩, 20), (⟨1⟩, 10)] = .ok t ∧
      t.getField ⟨2⟩ = .ok 20 ∧
      construct shared [] [(⟨1⟩, 10), (⟨1⟩, 11), (⟨3⟩, 30)] = .error (.duplicateField ⟨1⟩) := by
  intro shared t pairs
  have hconstruct : construct shared [] pairs = .ok t := by with_unfolding_all rfl
  obtain ⟨-, -, hmade⟩ := construct_accepts_complete_members shared [] pairs
  obtain ⟨-, -, hfields, hperm⟩ := hmade t hconstruct
  obtain ⟨hfaults, -⟩ :=
    construct_accepts_complete_members shared [] [(⟨1⟩, 10), (⟨1⟩, 11), (⟨3⟩, 30)]
  have before : Placeable shared.layout.fields [((⟨1⟩ : Symbol), 10)] :=
    placeable_nil.concat (by decide) (by decide) 10
  refine ⟨hconstruct, hperm _ (.swap ..), (hfields ⟨2⟩ 20).mpr (by decide), ?_⟩
  exact (hfaults _).mpr (.repeated rfl rfl before (by decide))

end Tuple

end TaggedTuple
