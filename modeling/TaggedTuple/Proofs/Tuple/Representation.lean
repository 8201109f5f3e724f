import TaggedTuple.Proofs.Canonical.Loading
import TaggedTuple.Proofs.Layout.Slots
import TaggedTuple.Proofs.Transparency.Matching
import TaggedTuple.Proofs.Tuple.Built

/-!
# How tuples are stored

The members of a tuple stand in one array, the positional ones first, and the layout numbers the
places of this array.

`Tuple.Obtained` collects every tuple that a program gets hold of: from a constructor, as a derived
tuple, by loading a canonical form, or out of a match. Whatever way it was made, it is stored as its
layout says (`Tuple.Represented`), so that every access stays within the stored members and all
views of the named members show one association (`Tuple.represented_of_obtained`).
-/

namespace TaggedTuple

/-! ### Every way to get a tuple -/

/-- A tuple is inside a value, at any depth. -/
inductive Tuple.Inside : Tuple Value → Value → Prop
  | here (t : Tuple Value) : Inside t (.tuple t)
  | deeper {t u : Tuple Value} {v : Value} (hv : v ∈ t.members) (h : Inside u v) :
    Inside u (.tuple t)

namespace Value

mutual

/-- A value is well-formed when all tuples inside are. -/
theorem wellFormed_of_inside :
    ∀ v : Value, (∀ t : Tuple Value, t.Inside v → t.WellFormed) → v.WellFormed
  | .int n, _ => .int n
  | .str s, _ => .str s
  | .tuple ⟨shared, positional, values⟩, h => by
    refine .tuple (h _ (.here _)) fun v hv => ?_
    rcases List.mem_append.mp hv with hmem | hmem
    · exact wellFormed_of_mem positional (fun w hw t ht =>
        h t (.deeper (List.mem_append_left _ hw) ht)) v hmem
    · exact wellFormed_of_mem values (fun w hw t ht =>
        h t (.deeper (List.mem_append_right _ hw) ht)) v hmem

/-- The part of the induction that goes over the members. -/
theorem wellFormed_of_mem :
    ∀ vs : List Value, (∀ v ∈ vs, ∀ t : Tuple Value, t.Inside v → t.WellFormed) →
      ∀ v ∈ vs, v.WellFormed
  | [], _ => nofun
  | w :: vs, h => by
    intro v hv
    rcases List.mem_cons.mp hv with heq | hv
    · rw [heq]
      exact wellFormed_of_inside w (h w List.mem_cons_self)
    · exact wellFormed_of_mem vs (fun w hw => h w (List.mem_cons_of_mem _ hw)) v hv

end

end Value

namespace Tuple

/-- The tuples that a program gets hold of: constructors, derived tuples, actions on all members,
which may fail and may keep a state, loaded canonical forms, and what a match binds, in particular
the captured rests. -/
inductive Obtained : {α : Type} → Tuple α → Prop
  | construct {α : Type} {shared : SharedLayout} {positional : List α} {named : List (Symbol × α)}
    {t : Tuple α} (h : Tuple.construct shared positional named = .ok t) : Obtained t
  | ofPositional {α : Type} {shared : SharedLayout} {positional : List α} {t : Tuple α}
    (h : Tuple.ofPositional shared positional = .ok t) : Obtained t
  | finish {α : Type} {b : TupleBuilder α} {c c' : LayoutCache} {t : Tuple α} (hc : c.Valid)
    (h : b.finish c = (.ok t, c')) : Obtained t
  | withUpdated {α : Type} {t u : Tuple α} {key : TupleKey} {a : α} (ht : Obtained t)
    (h : t.withUpdated key a = .ok u) : Obtained u
  | map {α β : Type} {t : Tuple α} (g : α → β) (ht : Obtained t) : Obtained (t.map g)
  | mapM {α β ε σ : Type} {t : Tuple α} {u : Tuple β} {g : α → ExceptT ε (StateM σ) β} {s s' : σ}
    (ht : Obtained t) (h : (t.mapM g).run s = (.ok u, s')) : Obtained u
  | slicePositional {α : Type} {t u : Tuple α} {start stop : Nat} {c c' : LayoutCache}
    (ht : Obtained t) (hc : c.Valid) (h : t.slicePositional start stop c = (.ok u, c')) :
    Obtained u
  | projectNamed {α : Type} {t u : Tuple α} {fields : List Symbol} {c c' : LayoutCache}
    (ht : Obtained t) (hc : c.Valid) (h : t.projectNamed fields c = (.ok u, c')) : Obtained u
  | toTuple {α : Type} {x : CanonicalTuple α} {table table' : SymbolTable} {c c' : LayoutCache}
    {t : Tuple α} (hc : c.Valid) (h : x.toTuple table c = (.ok t, table', c')) : Obtained t
  | captured {p : Pattern} {v : Value} {c c' : LayoutCache} {b : Bindings Value} {name : Symbol}
    {u : Tuple Value} (hv : ∀ t : Tuple Value, t.Inside v → Obtained t) (hc : c.Valid)
    (h : (p.matchInto v).outcome c = (.ok (.matched b), c'))
    (hu : b.get? name = some (.tuple u)) : Obtained u

variable {α : Type}

/-- A match on a well-formed value binds well-formed values only. -/
theorem wellFormed_of_matched {p : Pattern} {v : Value} (hv : v.WellFormed) {c c' : LayoutCache}
    (hc : c.Valid) {b : Bindings Value} (h : (p.matchInto v).outcome c = (.ok (.matched b), c'))
    {name : Symbol} {w : Value} (hw : b.get? name = some w) : w.WellFormed := by
  -- two runs on the same value bind values that agree, and agreement includes being well-formed
  have hagree := (p.matchInto_agree (.refl hv)).outcome hc hc
  rw [h] at hagree
  obtain ⟨⟨hentries⟩⟩ := hagree.result
  obtain ⟨x, -, -, hx⟩ := forall₂_exists_right hentries _ (mem_of_lookup_eq_some hw)
  exact hx.left

/-- Every tuple that is obtained is well-formed. -/
theorem Obtained.wellFormed {t : Tuple α} (h : t.Obtained) : t.WellFormed := by
  induction h with
  | construct h => exact wellFormed_of_construct h
  | ofPositional h => exact wellFormed_of_construct h
  | finish hc h => exact (Built.finish hc h).wellFormed
  | withUpdated _ h ih => exact ih.of_withUpdated h
  | map g _ ih => exact ih.map g
  | mapM _ h ih => exact ih.of_mapM h
  | slicePositional _ hc h _ => exact (hasMembers_of_slicePositional hc h).1.wellFormed
  | projectNamed _ hc h _ => exact (hasMembers_of_projectNamed hc h).1.wellFormed
  | toTuple hc h => exact (Built.finish hc (CanonicalTuple.finish_of_toTuple h).1).wellFormed
  | @captured _ v _ _ _ _ _ hv hc h hu ih =>
      have hwf := wellFormed_of_matched (v.wellFormed_of_inside ih) hc h hu
      exact (Value.wellFormed_tuple_iff.mp hwf).1

/-! ### Access within the stored members -/

/-- The pairs are the association that reading by field shows, each field once. -/
structure Presents (t : Tuple α) (pairs : List (Symbol × α)) : Prop where
  nodup : (pairs.map Prod.fst).Nodup
  mem_iff : ∀ f a, (f, a) ∈ pairs ↔ t.field? f = some a

/-- A tuple is stored as its layout says: the members stand in one array. -/
structure Represented (t : Tuple α) : Prop where
  /-- There is one value for each member of the layout. -/
  length_members : t.members.length = t.layout.positional + t.layout.fields.length
  /-- The fields are mapped one-to-one onto the positions of the declaration. -/
  bijOn_positions :
    Set.BijOn t.layout.positionOf? {f | f ∈ t.layout.fields}
      (some '' Set.Iio t.layout.fields.length)
  /-- The index maps the fields one-to-one onto the slots behind the positional members. -/
  bijOn_slots :
    Set.BijOn t.layout.slotOf? {f | f ∈ t.layout.fields}
      (some '' Set.Ico t.layout.positional (t.layout.positional + t.layout.fields.length))
  /-- The positional members are the first stored values, of which there are enough. -/
  positional_eq : t.layout.positional ≤ t.members.length ∧
    t.positional = t.members.take t.layout.positional
  /-- An index in range is the place of a stored value, and no other index is read. -/
  at?_eq : ∀ i, (i < t.layout.positional → ∃ a, t.members[i]? = some a ∧ t.at? i = some a) ∧
    (t.layout.positional ≤ i → t.at? i = none)
  /-- The slot of a field is the place of a stored value, and no other field is read. -/
  field?_eq : ∀ f,
    (∀ s, t.layout.slotOf? f = some s → ∃ a, t.members[s]? = some a ∧ t.field? f = some a) ∧
      (t.layout.slotOf? f = none → t.field? f = none)
  /-- Fields and stored values are paired up without any left over. -/
  named_eq : t.named.map Prod.fst = t.layout.fields ∧
    t.named.map Prod.snd = t.members.drop t.layout.positional
  /-- In ascending order, each field comes with the value that is stored at its slot. -/
  namedAscending_eq :
    List.Forall₂ (fun x y => x.1 = y.1 ∧ t.members[x.2]? = some y.2) t.layout.slots
      t.namedAscending
  /-- Both listings show the association that reading by field shows. -/
  presents : t.Presents t.named ∧ t.Presents t.namedAscending

section represented

variable {t : Tuple α}

/-- There is one member for each slot. -/
theorem WellFormed.length_members (h : t.WellFormed) :
    t.members.length = t.layout.positional + t.layout.fields.length := by
  rw [members, List.length_append, h.positional_length, h.values_length]

/-- The positional members come first. -/
theorem WellFormed.take_members (h : t.WellFormed) :
    t.members.take t.layout.positional = t.positional :=
  List.take_left' h.positional_length

/-- The values of the fields come behind the positional members. -/
theorem WellFormed.drop_members (h : t.WellFormed) :
    t.members.drop t.layout.positional = t.values :=
  List.drop_left' h.positional_length

/-- The value at a position of the declaration is stored behind the positional members. -/
theorem WellFormed.getElem?_values (h : t.WellFormed) (i : Nat) :
    t.values[i]? = t.members[t.layout.positional + i]? := by
  rw [← h.drop_members, List.getElem?_drop]

/-- Every positional slot is filled, and reading the index reads the slot. -/
theorem WellFormed.exists_at? (h : t.WellFormed) {i : Nat} (hi : i < t.layout.positional) :
    ∃ a, t.members[i]? = some a ∧ t.at? i = some a := by
  have hlt : i < t.positional.length := by rwa [h.positional_length]
  have hget : t.positional[i]? = some t.positional[i] := List.getElem?_eq_getElem hlt
  refine ⟨t.positional[i], ?_, by rw [h.at?_eq, hget]⟩
  rw [members, List.getElem?_append_left hlt, hget]

/-- Each position of the declaration has its value. -/
theorem WellFormed.exists_value (h : t.WellFormed) {f : Symbol} {i : Nat}
    (hi : t.layout.fields[i]? = some f) : ∃ a, t.values[i]? = some a := by
  have hlt : i < t.values.length := by
    rw [h.values_length]
    exact (List.getElem?_eq_some_iff.mp hi).1
  exact ⟨t.values[i], List.getElem?_eq_getElem hlt⟩

/-- Every slot of a field is filled, and reading the field reads the slot. -/
theorem WellFormed.exists_field?_of_slotOf? (h : t.WellFormed) {f : Symbol} {s : Nat}
    (hs : t.layout.slotOf? f = some s) : ∃ a, t.members[s]? = some a ∧ t.field? f = some a := by
  obtain ⟨i, hi, rfl⟩ := t.layout.slotOf?_eq_some_iff.mp hs
  obtain ⟨a, ha⟩ := h.exists_value hi
  exact ⟨a, by rw [← h.getElem?_values, ha], field?_eq_some_iff.mpr ⟨i, hi, ha⟩⟩

/-- The ascending view reads the slots of the layout. -/
theorem WellFormed.slots_namedAscending (h : t.WellFormed) :
    List.Forall₂ (fun x y => x.1 = y.1 ∧ t.members[x.2]? = some y.2) t.layout.slots
      t.namedAscending := by
  have hslots : ∀ x ∈ t.layout.slots, ∃ i : Nat, t.layout.fields[i]? = some x.1 ∧
      x.2 = t.layout.positional + i := by
    intro x hmem
    rw [t.layout.slots_perm_zipIdx.mem_iff, List.mem_zipIdx_iff_le_and_getElem?_sub] at hmem
    exact ⟨x.2 - t.layout.positional, hmem.2, (Nat.add_sub_cancel' hmem.1).symm⟩
  unfold namedAscending
  generalize t.layout.slots = slots at hslots
  induction slots with
  | nil => exact .nil
  | cons x slots ih =>
      obtain ⟨f, s⟩ := x
      obtain ⟨⟨i, hi, hs⟩, hrest⟩ := List.forall_mem_cons.mp hslots
      obtain rfl : s = t.arity + i := hs
      obtain ⟨a, ha⟩ := h.exists_value hi
      simp only [List.filterMap_cons, Nat.add_sub_cancel_left, ha, Option.map_some]
      refine .cons ⟨rfl, ?_⟩ (ih hrest)
      show t.members[t.layout.positional + i]? = some a
      rw [← h.getElem?_values, ha]

/-- The view by declaration presents the association. -/
theorem WellFormed.presents_named (h : t.WellFormed) : t.Presents t.named where
  nodup := h.nodup_keys_named
  mem_iff f a := by rw [field?_eq_lookup, lookup_eq_some_iff_mem h.nodup_keys_named]

/-- The ascending view presents the association. -/
theorem WellFormed.presents_namedAscending (h : t.WellFormed) : t.Presents t.namedAscending where
  nodup := h.nodup_keys_namedAscending
  mem_iff _ _ := h.mem_namedAscending_iff

/-- A well-formed tuple is stored as its layout says. -/
theorem WellFormed.represented (h : t.WellFormed) : t.Represented where
  length_members := h.length_members
  bijOn_positions := t.layout.bijOn_positionOf?
  bijOn_slots := t.layout.bijOn_slotOf?
  positional_eq := ⟨by rw [h.length_members]; exact Nat.le_add_right _ _, h.take_members.symm⟩
  at?_eq i := by
    refine ⟨h.exists_at?, fun hi => ?_⟩
    rw [h.at?_eq, List.getElem?_eq_none_iff, h.positional_length]
    exact hi
  field?_eq f := by
    refine ⟨fun s => h.exists_field?_of_slotOf?, fun hs => ?_⟩
    rw [h.field?_eq_none_iff, ← Layout.slotOf?_eq_none_iff, hs]
  named_eq := ⟨h.map_fst_named, by rw [h.drop_members, h.map_snd_named]⟩
  namedAscending_eq := h.slots_namedAscending
  presents := ⟨h.presents_named, h.presents_namedAscending⟩

end represented

/-- Every tuple that a program gets hold of is stored as its layout says; equality pairs up the same
fields of two tuples of one shape; and filling the slots of a layout stays within them. -/
theorem represented_of_obtained :
    (∀ {α : Type} {t : Tuple α}, t.Obtained → t.Represented) ∧
      (∀ {α : Type} {t u : Tuple α}, t.Obtained → u.Obtained →
        t.layout.sameShape u.layout = true →
          t.positional.length = u.positional.length ∧ t.values.length = u.values.length ∧
            t.namedAscending.map Prod.fst = u.namedAscending.map Prod.fst) ∧
      ∀ l : Layout, l.SlotsFit := by
  refine ⟨fun h => h.wellFormed.represented, fun {α t u} ht hu hshape => ?_, Layout.slotsFit⟩
  obtain ⟨hpositional, -, hfields⟩ := Layout.sameShape_iff.mp hshape
  have ht := ht.wellFormed
  have hu := hu.wellFormed
  refine ⟨?_, ?_, map_fst_namedAscending_eq hfields ht hu⟩
  · rw [ht.positional_length, hu.positional_length, hpositional]
  · rw [ht.values_length, hu.values_length, hfields.length_eq]

/-- A record that declares its fields in descending order, and its captured rest, for which the
cache has a layout that declares them the other way around. -/
theorem represented_of_obtained_of_captured_rest :
    let cache := ((LayoutCache.empty 0 true).construct 0 [⟨1⟩, ⟨2⟩] none).2
    let record : Tuple Value := ⟨⟨1, 0, .descendingPair 0⟩, [], [.int 20, .int 10]⟩
    let rest : Tuple Value := ⟨⟨0, 0, .ascendingPair 0⟩, [], [.int 10, .int 20]⟩
    let p : Pattern := .tuple { namedRest := some ⟨3⟩ }
    (p.matchInto (.tuple record)).outcome cache = (.ok (.matched ⟨[(⟨3⟩, .tuple rest)]⟩), cache) ∧
      (rest.Represented ∧ rest.layout.slotOf? ⟨2⟩ = some 1 ∧ record.layout.slotOf? ⟨2⟩ = some 0) ∧
      rest.namedAscending.map Prod.fst = record.namedAscending.map Prod.fst ∧
      record.layout.SlotsFit := by
  intro cache record rest p
  have hmatch : (p.matchInto (.tuple record)).outcome cache =
      (.ok (.matched ⟨[(⟨3⟩, .tuple rest)]⟩), cache) := by with_unfolding_all rfl
  have hconstruct : Tuple.construct record.shared [] [(⟨1⟩, .int 10), (⟨2⟩, .int 20)]
      = .ok record := by with_unfolding_all rfl
  have hrecord : record.Obtained := .construct hconstruct
  have hinside : ∀ t : Tuple Value, t.Inside (.tuple record) → t.Obtained := by
    rintro t (_ | ⟨hv, h⟩)
    · exact hrecord
    · -- the members of the record are numbers
      simp only [record, members, List.nil_append, List.mem_cons, List.not_mem_nil, or_false] at hv
      rcases hv with rfl | rfl <;> cases h
  have hcache : cache.Valid := (LayoutCache.valid_empty 0 true).construct 0 _ none
  have hrest : rest.Obtained :=
    .captured hinside hcache hmatch (show Bindings.get? _ ⟨3⟩ = _ from rfl)
  obtain ⟨hrepresented, hpairs, hfit⟩ := represented_of_obtained
  have hslots : rest.layout.slotOf? ⟨2⟩ = some 1 ∧ record.layout.slotOf? ⟨2⟩ = some 0 := by
    with_unfolding_all exact ⟨rfl, rfl⟩
  exact ⟨hmatch, ⟨hrepresented hrest, hslots⟩, (hpairs hrest hrecord (by decide)).2.2,
    hfit record.layout⟩

end Tuple

end TaggedTuple
