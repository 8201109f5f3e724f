import TaggedTuple.Proofs.Lifting
import TaggedTuple.Proofs.Tuple.Members

/-!
# What the operations on tuples make

One lemma for each operation that makes a tuple lists its outcomes. Success is described by
`Tuple.HasMembers`, so the order in which a cached layout declares its fields never shows; a
failure names its error.

`construct` puts each named value into the place of its field. The state of the places after some
pairs is the list of look-ups of the declared fields among those pairs (`fill_eq_ok`).
-/

namespace TaggedTuple

variable {α β : Type}

namespace Tuple

/-! ### Filling the places -/

/-- Writing the place of a field is looking it up with one more pair. -/
theorem set_map_lookup {fields : List Symbol} (hfields : fields.Nodup) {f : Symbol} {i : Nat}
    (hi : fields[i]? = some f) {done : List (Symbol × α)} (hf : f ∉ done.map Prod.fst) (a : α) :
    (fields.map fun g => done.lookup g).set i (some a)
      = fields.map fun g => (done ++ [(f, a)]).lookup g := by
  obtain ⟨hlt, rfl⟩ := List.getElem?_eq_some_iff.mp hi
  apply List.ext_getElem
  · simp
  · intro j hj hj'
    rw [List.getElem_set, List.getElem_map, List.getElem_map, List.lookup_append]
    have hlt' : j < fields.length := by simpa using hj'
    by_cases hij : i = j
    · subst hij
      rw [if_pos rfl, lookup_eq_none_iff_not_mem_keys.mpr hf]
      simp
    · have hne : fields[j] ≠ fields[i] := fun heq =>
        hij ((hfields.getElem_inj_iff).mp heq.symm)
      simp [hij, List.lookup_cons, beq_false_of_ne hne]

/-- Before the first pair all places are empty. -/
theorem replicate_eq_map_lookup (fields : List Symbol) :
    List.replicate fields.length (none : Option α)
      = fields.map fun f => ([] : List (Symbol × α)).lookup f := by
  simp

/-- Pairs with distinct, declared fields fill the places of their fields. -/
theorem fill_eq_ok (l : Layout) (rest done : List (Symbol × α))
    (hnodup : ((done ++ rest).map Prod.fst).Nodup) (hsub : ∀ x ∈ rest, x.1 ∈ l.fields) :
    fill l (l.fields.map fun f => done.lookup f) rest
      = .ok (l.fields.map fun f => (done ++ rest).lookup f) := by
  induction rest generalizing done with
  | nil => simp [fill]
  | cons x rest ih =>
      obtain ⟨f, a⟩ := x
      obtain ⟨i, hi⟩ := List.mem_iff_getElem?.mp (hsub (f, a) List.mem_cons_self)
      have hf : f ∉ done.map Prod.fst := by
        rw [List.map_append, List.nodup_append] at hnodup
        exact fun hmem => hnodup.2.2 f hmem f List.mem_cons_self rfl
      have hempty : ((l.fields.map fun g => done.lookup g)[i]?.bind id).isSome = false := by
        rw [List.getElem?_map, hi, Option.map_some, lookup_eq_none_iff_not_mem_keys.mpr hf]
        rfl
      rw [fill, l.positionOf?_eq_some_iff.mpr hi]
      simp only [hempty, Bool.false_eq_true, if_false]
      rw [set_map_lookup l.fields_nodup hi hf a]
      rw [ih (done ++ [(f, a)]) (by simpa using hnodup)
        fun x hx => hsub x (List.mem_cons_of_mem _ hx)]
      simp

/-- Full places are collected. -/
theorem exists_collect {fields : List Symbol} {g : Symbol → Option α}
    (h : ∀ f ∈ fields, (g f).isSome = true) :
    ∃ values, collect fields (fields.map g) = .ok values ∧ values.map some = fields.map g := by
  induction fields with
  | nil => exact ⟨[], rfl, rfl⟩
  | cons f fields ih =>
      obtain ⟨a, ha⟩ := Option.isSome_iff_exists.mp (h f List.mem_cons_self)
      obtain ⟨values, hcollect, hvalues⟩ := ih fun f' hf' => h f' (List.mem_cons_of_mem _ hf')
      refine ⟨a :: values, ?_, ?_⟩
      · simp only [List.map_cons, collect, ha, hcollect]
        rfl
      · rw [List.map_cons, List.map_cons, hvalues, ha]

/-- The values at the declared positions are what the fields are mapped to. -/
theorem field?_eq_of_values {t : Tuple α} {g : Symbol → Option α}
    (hvalues : t.values.map some = t.layout.fields.map g) (f : Symbol) :
    t.field? f = if f ∈ t.layout.fields then g f else none := by
  have hget : ∀ i : Nat, ∀ a, t.layout.fields[i]? = some f →
      (t.values[i]? = some a ↔ g f = some a) := by
    intro i a hi
    have hmap := congrArg (fun l : List (Option α) => l[i]?) hvalues
    simp only [List.getElem?_map, hi, Option.map_some] at hmap
    cases hv : t.values[i]? with
    | none => simp [hv] at hmap
    | some b => simp [hv] at hmap; simp [← hmap]
  apply Option.ext
  intro a
  rw [field?_eq_some_iff]
  split_ifs with hf
  · obtain ⟨i, hi⟩ := List.mem_iff_getElem?.mp hf
    exact ⟨fun ⟨j, hj, ha⟩ => (hget j a hj).mp ha, fun ha => ⟨i, hi, (hget i a hi).mpr ha⟩⟩
  · constructor
    · rintro ⟨i, hi, -⟩
      exact absurd (List.mem_of_getElem? hi) hf
    · rintro ⟨⟩

/-- Complete members that name the fields of the layout once each make a tuple on that layout. -/
theorem exists_construct {shared : SharedLayout} {positional : List α} {named : List (Symbol × α)}
    (hpositional : positional.length = shared.layout.positional)
    (hnamed : (named.map Prod.fst).Perm shared.layout.fields) :
    ∃ t, construct shared positional named = .ok t ∧
      t.HasMembers shared.layout.tag positional fun f => named.lookup f := by
  have hnodup : (named.map Prod.fst).Nodup := hnamed.nodup_iff.mpr shared.layout.fields_nodup
  have hsub : ∀ x ∈ named, x.1 ∈ shared.layout.fields := fun x hx =>
    hnamed.subset (List.mem_map_of_mem hx)
  have hfill := fill_eq_ok shared.layout named [] hnodup hsub
  have hsome : ∀ f ∈ shared.layout.fields, (named.lookup f).isSome = true := fun f hf =>
    lookup_isSome_iff_mem_keys.mpr (hnamed.symm.subset hf)
  obtain ⟨values, hcollect, hvalues⟩ := exists_collect hsome
  refine ⟨{ shared, positional, values }, ?_, ⟨hpositional, ?_⟩, rfl, rfl, fun f => ?_⟩
  · unfold construct
    rw [if_pos hpositional]
    rw [replicate_eq_map_lookup, hfill]
    simp only [List.nil_append, bind, Except.bind, hcollect]
    rfl
  · have hlength := congrArg List.length hvalues
    rwa [List.length_map, List.length_map] at hlength
  · rw [field?_eq_of_values hvalues]
    split_ifs with hf
    · rfl
    · exact (lookup_eq_none_iff_not_mem_keys.mpr fun hmem => hf (hnamed.subset hmem)).symm

/-- What a construction that succeeds has gone through. -/
theorem exists_of_construct {shared : SharedLayout} {positional : List α}
    {named : List (Symbol × α)} {t : Tuple α}
    (h : Tuple.construct shared positional named = .ok t) :
    positional.length = shared.layout.positional ∧ ∃ places values,
      fill shared.layout (List.replicate shared.layout.fields.length none) named
        = .ok places ∧ collect shared.layout.fields places = .ok values ∧
      t = { shared, positional, values } := by
  simp only [Tuple.construct] at h
  split_ifs at h with hpositional
  refine ⟨hpositional, ?_⟩
  cases hfill : fill shared.layout
      (List.replicate shared.layout.fields.length none) named with
  | error e => simp [hfill, bind, Except.bind] at h
  | ok places =>
      cases hcollect : collect shared.layout.fields places with
      | error e => simp [hfill, hcollect, bind, Except.bind] at h
      | ok values =>
          simp only [hfill, hcollect, bind, Except.bind, pure, Except.pure, Except.ok.injEq] at h
          exact ⟨places, values, rfl, hcollect, h.symm⟩

/-- A tuple lies on the layout that it is constructed on. -/
theorem shared_of_construct {shared : SharedLayout} {positional : List α}
    {named : List (Symbol × α)} {t : Tuple α} (h : construct shared positional named = .ok t) :
    t.shared = shared := by
  obtain ⟨-, places, values, -, -, rfl⟩ := exists_of_construct h
  rfl

/-! ### Updates -/

section update

variable {t : Tuple α} (ht : t.WellFormed) (a : α)
include ht

/-- An update by index replaces that positional member and keeps the layout instance. -/
theorem withUpdated_index_cases (i : Nat) :
    (i < t.arity ∧ ∃ u, t.withUpdated (.index i) a = .ok u ∧ u.shared = t.shared ∧
      u.HasMembers t.tag (t.positional.set i a) t.field?) ∨
    (t.arity ≤ i ∧ t.withUpdated (.index i) a = .error (.indexOutOfRange i t.arity)) := by
  unfold withUpdated
  by_cases hi : i < t.arity
  · refine .inl ⟨hi, { t with positional := t.positional.set i a }, if_pos hi, rfl, ⟨?_, ?_⟩, rfl,
      rfl, fun _ => rfl⟩
    · exact (List.length_set ..).trans ht.positional_length
    · exact ht.values_length
  · exact .inr ⟨Nat.le_of_not_lt hi, if_neg hi⟩

/-- An update by field replaces the value of that field and keeps the layout instance. -/
theorem withUpdated_field_cases (f : Symbol) :
    (f ∈ t.layout.fields ∧ ∃ u, t.withUpdated (.field f) a = .ok u ∧ u.shared = t.shared ∧
      u.HasMembers t.tag t.positional fun g => if g = f then some a else t.field? g) ∨
    (f ∉ t.layout.fields ∧ t.withUpdated (.field f) a = .error (.unknownField f)) := by
  unfold withUpdated
  by_cases hf : f ∈ t.layout.fields
  · obtain ⟨i, hfind, hi⟩ := Layout.exists_positionOf? hf
    have hget := t.layout.positionOf?_eq_some_iff.mp hfind
    refine .inl ⟨hf, { t with values := t.values.set i a }, by simp only [hfind], rfl, ⟨?_, ?_⟩,
      rfl, rfl, fun g => ?_⟩
    · exact ht.positional_length
    · exact (List.length_set ..).trans ht.values_length
    · apply Option.ext
      intro b
      rw [field?_eq_some_iff]
      show (∃ j : Nat, t.layout.fields[j]? = some g ∧ (t.values.set i a)[j]? = some b) ↔ _
      split_ifs with hgf
      · subst hgf
        constructor
        · rintro ⟨j, hj, hb⟩
          obtain ⟨hlt, hgj⟩ := List.getElem?_eq_some_iff.mp hj
          obtain ⟨hlt', hgi⟩ := List.getElem?_eq_some_iff.mp hget
          have hji : j = i := t.layout.fields_nodup.getElem_inj_iff.mp (hgj.trans hgi.symm)
          subst hji
          rwa [List.getElem?_set_self (by rw [ht.values_length]; exact hi)] at hb
        · rintro ⟨⟩
          exact ⟨i, hget, List.getElem?_set_self (by rw [ht.values_length]; exact hi)⟩
      · rw [field?_eq_some_iff]
        refine exists_congr fun j => and_congr_right fun hj => ?_
        have hij : i ≠ j := by
          rintro rfl
          exact hgf (Option.some.inj (hj.symm.trans hget))
        rw [List.getElem?_set_ne hij]
  · refine .inr ⟨hf, ?_⟩
    simp only [t.layout.positionOf?_eq_none_iff.mpr hf]

end update

/-! ### Parts of a tuple -/

/-- A range of positional members is captured exactly when it lies within them. -/
theorem slicePositional_cases (t : Tuple α) (start stop : Nat) {c : LayoutCache} (hc : c.Valid) :
    (start ≤ stop ∧ stop ≤ t.positional.length ∧
      ∃ u c', t.slicePositional start stop c = (.ok u, c') ∧ c'.Valid ∧
        u.HasMembers none ((t.positional.take stop).drop start) fun _ => none) ∨
    (¬(start ≤ stop ∧ stop ≤ t.positional.length) ∧
      t.slicePositional start stop c = (.error (.indexOutOfRange stop t.arity), c)) := by
  unfold slicePositional
  by_cases hrange : start ≤ stop ∧ stop ≤ t.positional.length
  · obtain ⟨shared, c', hpositional, hshape, hc'⟩ :=
      hc.exists_positional ((t.positional.take stop).drop start).length
    have hfields : shared.layout.fields = [] := List.perm_nil.mp hshape.fields_perm
    refine .inl ⟨hrange.1, hrange.2,
      { shared, positional := (t.positional.take stop).drop start, values := [] }, c', ?_, hc',
      ⟨hshape.positional_eq.symm, ?_⟩, hshape.tag_eq, rfl, fun f => ?_⟩
    · rw [if_pos hrange]
      simp only [hpositional]
    · exact (congrArg List.length hfields).symm
    · rw [field?_eq_lookup, named]
      show ((shared.layout.fields).zip ([] : List α)).lookup f = none
      rw [List.zip_nil_right, List.lookup_nil]
  · exact .inr ⟨hrange, if_neg hrange⟩

/-- A slice holds the members between its bounds and nothing else. -/
theorem hasMembers_of_slicePositional {t u : Tuple α} {start stop : Nat} {c c' : LayoutCache}
    (hc : c.Valid) (h : t.slicePositional start stop c = (.ok u, c')) :
    u.HasMembers none ((t.positional.take stop).drop start) (fun _ => none) ∧ c'.Valid := by
  rcases t.slicePositional_cases start stop hc with
    ⟨-, -, v, c'', hok, hc', hmembers⟩ | ⟨-, herror⟩
  · cases hok.symm.trans h
    exact ⟨hmembers, hc'⟩
  · cases herror.symm.trans h

/-- Reading a field succeeds when the tuple has it. -/
theorem getField_eq_ok_iff {t : Tuple α} {f : Symbol} {a : α} :
    t.getField f = .ok a ↔ t.field? f = some a := by
  unfold getField
  cases t.field? f <;> simp

/-- Reading a field fails when the tuple does not have it. -/
theorem getField_eq_error_iff {t : Tuple α} {f : Symbol} {e : TupleError} :
    t.getField f = .error e ↔ t.field? f = none ∧ e = .unknownField f := by
  unfold getField
  cases t.field? f <;> simp [eq_comm]

/-- Reading at an index reads the slot. -/
theorem getKey_index_eq_ok_iff {t : Tuple α} {i : Nat} {a : α} :
    t.getKey (.index i) = .ok a ↔ t.at? i = some a := by
  show t.get i = .ok a ↔ _
  unfold Tuple.get
  cases t.at? i <;> simp

/-- Reading at an index reads the positional member. -/
theorem WellFormed.getKey_index_eq_ok_iff {t : Tuple α} (ht : t.WellFormed) {i : Nat} {a : α} :
    t.getKey (.index i) = .ok a ↔ t.positional[i]? = some a := by
  rw [Tuple.getKey_index_eq_ok_iff, ht.at?_eq]

/-- Reading at a field reads the named member. -/
theorem getKey_field_eq_ok_iff {t : Tuple α} {f : Symbol} {a : α} :
    t.getKey (.field f) = .ok a ↔ t.field? f = some a :=
  getField_eq_ok_iff

/-- What is read is a member. -/
theorem mem_members_of_getKey {t : Tuple α} (ht : t.WellFormed) {key : TupleKey} {a : α}
    (ha : t.getKey key = .ok a) : a ∈ t.members := by
  cases key with
  | index i =>
      rw [ht.getKey_index_eq_ok_iff] at ha
      exact mem_members_of_positional (List.mem_of_getElem? ha)
  | field f =>
      rw [getKey_field_eq_ok_iff] at ha
      exact mem_members_of_field? ha

/-- Reading fields in turn gives all their values, or fails at a field without one. -/
theorem mapM_getField_cases (t : Tuple α) (fields : List Symbol) :
    (∃ values, fields.mapM t.getField = .ok values ∧ values.map some = fields.map t.field?) ∨
    ∃ f ∈ fields, t.field? f = none ∧ fields.mapM t.getField = .error (.unknownField f) := by
  rcases mapM_except_cases t.getField fields with
    ⟨values, hvalues, hget⟩ | ⟨f, hf, e, he, herror⟩
  · refine .inl ⟨values, hvalues, ?_⟩
    exact (map_eq_map_of_forall₂ hget fun _ _ _ _ => getField_eq_ok_iff.mp).symm
  · obtain ⟨hnone, rfl⟩ := getField_eq_error_iff.mp he
    exact .inr ⟨f, hf, hnone, herror⟩

/-- The three outcomes of a projection: a field is asked for twice, a field is not there, or the
fields that were asked for make the tuple. -/
theorem projectNamed_cases (t : Tuple α) (fields : List Symbol) {c : LayoutCache} (hc : c.Valid) :
    (∃ f, repeatedField? fields = some f ∧
      t.projectNamed fields c = (.error (.duplicateField f), c)) ∨
    (fields.Nodup ∧ ∃ f ∈ fields, t.field? f = none ∧
      ∃ c', t.projectNamed fields c = (.error (.unknownField f), c') ∧ c'.Valid) ∨
    (fields.Nodup ∧ (∀ f ∈ fields, (t.field? f).isSome = true) ∧
      ∃ u c', t.projectNamed fields c = (.ok u, c') ∧ c'.Valid ∧
        u.HasMembers none [] fun f => if f ∈ fields then t.field? f else none) := by
  unfold projectNamed
  rcases hc.construct_cases 0 fields none with
    ⟨f, hf, hconstruct⟩ | ⟨hnodup, shared, c', hconstruct, hshape, hc'⟩
  · exact .inl ⟨f, hf, by simp only [hconstruct]⟩
  · simp only [hconstruct]
    rcases t.mapM_getField_cases shared.layout.fields with
      ⟨values, hvalues, hmap⟩ | ⟨f, hf, hnone, herror⟩
    · refine .inr (.inr ⟨hnodup, fun f hf => ?_, { shared, positional := [], values }, c', ?_, hc',
        ⟨hshape.positional_eq.symm, ?_⟩, hshape.tag_eq, rfl, fun f => ?_⟩)
      · have hmem : t.field? f ∈ values.map some := by
          rw [hmap]
          exact List.mem_map_of_mem (hshape.fields_perm.symm.subset hf)
        obtain ⟨a, -, ha⟩ := List.mem_map.mp hmem
        rw [← ha]
        rfl
      · simp only [hvalues]
      · have hlength := congrArg List.length hmap
        rwa [List.length_map, List.length_map] at hlength
      · rw [field?_eq_of_values hmap]
        exact if_congr hshape.fields_perm.mem_iff rfl rfl
    · refine .inr (.inl ⟨hnodup, f, hshape.fields_perm.subset hf, hnone, c', ?_, hc'⟩)
      simp only [herror]

/-- A projection holds the listed fields and nothing else. -/
theorem hasMembers_of_projectNamed {t u : Tuple α} {fields : List Symbol} {c c' : LayoutCache}
    (hc : c.Valid) (h : t.projectNamed fields c = (.ok u, c')) :
    u.HasMembers none [] (fun f => if f ∈ fields then t.field? f else none) ∧ c'.Valid := by
  rcases t.projectNamed_cases fields hc with
    ⟨f, -, herror⟩ | ⟨-, f, -, -, c'', herror, -⟩ | ⟨-, -, v, c'', hok, hc', hmembers⟩
  · cases herror.symm.trans h
  · cases herror.symm.trans h
  · cases hok.symm.trans h
    exact ⟨hmembers, hc'⟩

end Tuple

/-! ### Literals -/

/-- A literal fails exactly when it names a field twice; else it is the tuple of its entries. -/
theorem TupleBuilder.finish_cases (b : TupleBuilder α) {c : LayoutCache} (hc : c.Valid) :
    (∃ f, repeatedField? (b.named.map Prod.fst) = some f ∧
      b.finish c = (.error (.duplicateField f), c)) ∨
    ((b.named.map Prod.fst).Nodup ∧ ∃ t c', b.finish c = (.ok t, c') ∧ c'.Valid ∧
      t.HasMembers b.tag b.positional fun f => b.named.lookup f) := by
  unfold finish
  rcases hc.construct_cases b.positional.length (b.named.map Prod.fst) b.tag with
    ⟨f, hf, hconstruct⟩ | ⟨hnodup, shared, c', hconstruct, hshape, hc'⟩
  · exact .inl ⟨f, hf, by simp only [hconstruct]⟩
  · obtain ⟨t, ht, hmembers⟩ := Tuple.exists_construct hshape.positional_eq.symm
      hshape.fields_perm.symm
    refine .inr ⟨hnodup, t, c', ?_, hc', ?_⟩
    · simp only [hconstruct, ht]
    · rwa [hshape.tag_eq] at hmembers

end TaggedTuple
