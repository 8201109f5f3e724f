import TaggedTuple.Pattern.LayoutMatching
import TaggedTuple.Proofs.Layout.Attempts
import TaggedTuple.Proofs.Lifting
import TaggedTuple.Proofs.Pattern.Bindings
import TaggedTuple.Proofs.Pattern.Validity

/-!
# How far slot arithmetic goes

A layout is asked for with any positional count that is a machine word, and nothing checks that its
sums are words as well: the program stops at one that is not. `slot_arithmetic_exact` says where it
does. It stops at a declaration with fields and more members than there are words, and, asked how
many slots a layout has, at one with as many members as there are words. In between nothing goes
around: the slots of fields are distinct, behind those of positional members, and so are the places
of fields when a pattern is matched. The declarations at the end of the range
(`stops_at_last_word`) show both stops.

Aligning a pattern with a positional count only ever subtracts and adds numbers up to that count, so
it stays within the count for all machine words (`Alignment.Within`).
-/

namespace TaggedTuple

namespace TuplePattern

variable {p : TuplePattern Pattern} {l : Layout}

/-! ### The places of fields -/

/-- The places of the parts for fields are the slots of the fields, and every name that such a part
binds has one. -/
theorem placeFields_eq_ok {parts : List (Symbol × FieldPattern Pattern)}
    {bound : List (Symbol × SlotBinding)} (h : placeFields l parts = .ok bound) :
    (∀ x ∈ bound, ∃ f s, l.slotOf? f = some s ∧ x.2 = .slot s) ∧
      ∀ x ∈ parts, ∀ name, fieldName? x.1 x.2 = some name → name ∈ bound.map Prod.fst := by
  induction parts generalizing bound with
  | nil =>
      cases h
      exact ⟨nofun, nofun⟩
  | cons x parts ih =>
      obtain ⟨key, part⟩ := x
      rw [placeFields] at h
      cases hslot : l.slotOf? key with
      | none => simp [hslot] at h
      | some s =>
          cases hmore : placeFields l parts with
          | error failure => simp [hslot, hmore, Except.map] at h
          | ok more =>
              obtain ⟨hplaces, hnames⟩ := ih hmore
              simp only [hslot, hmore, Except.map, Except.ok.injEq] at h
              subst h
              constructor
              · intro y hy
                rcases List.mem_append.mp hy with hy | hy
                · cases hname : fieldName? key part with
                  | none => simp [hname, bindSlot] at hy
                  | some name =>
                      obtain rfl : y = (name, .slot s) := by simpa [hname, bindSlot] using hy
                      exact ⟨key, s, hslot, rfl⟩
                · exact hplaces y hy
              · intro y hy name hname
                rw [List.map_append, List.mem_append]
                rcases List.mem_cons.mp hy with rfl | hy
                · exact .inl (by simp [show fieldName? key part = some name from hname, bindSlot])
                · exact .inr (hnames y hy name hname)

/-- The parts of the places that a layout gives to the names of a pattern. -/
theorem exists_of_place_eq_ok {bound : List (Symbol × SlotBinding)} (h : p.place l = .ok bound) :
    ∃ positional fields, placeFields l p.fields = .ok fields ∧
      bound = positional ++ fields
        ++ bindSlot p.namedRest (some (.namedRest (p.unmentioned l))) := by
  obtain ⟨-, -, h⟩ := bind_eq_ok_iff.mp h
  obtain ⟨alignment, -, h⟩ := bind_eq_ok_iff.mp h
  obtain ⟨fields, hfields, h⟩ := bind_eq_ok_iff.mp h
  cases h
  exact ⟨_, fields, hfields, rfl⟩

/-- A name that a part for a field binds is bound to the slot of a field, whatever it was bound to
before, unless the capture of the other fields takes it over. -/
theorem get?_of_matched_field {places : Bindings SlotBinding}
    (h : p.matchLayout l = .ok (.matched places)) {x : Symbol × FieldPattern Pattern}
    (hx : x ∈ p.fields) {name : Symbol} (hname : fieldName? x.1 x.2 = some name)
    (hrest : p.namedRest ≠ some name) :
    ∃ f s, l.slotOf? f = some s ∧ places.get? name = some (.slot s) := by
  obtain ⟨bound, hplace, rfl⟩ : ∃ bound, p.place l = .ok bound ∧ places = .ofList bound := by
    unfold matchLayout at h
    cases hvalid : p.validate with
    | error e => simp [hvalid] at h
    | ok u =>
        cases hplace : p.place l with
        | error failure => simp [hvalid, hplace] at h
        | ok bound =>
            simp only [hvalid, hplace, Except.ok.injEq, MatchOutcome.matched.injEq] at h
            exact ⟨bound, rfl, h.symm⟩
  obtain ⟨positional, fields, hfields, rfl⟩ := exists_of_place_eq_ok hplace
  obtain ⟨hplaces, hnames⟩ := placeFields_eq_ok hfields
  have hcapture : (bindSlot p.namedRest
      (some (.namedRest (p.unmentioned l)))).reverse.lookup name = none := by
    cases hcaptured : p.namedRest with
    | none => rfl
    | some other =>
        have hne : name ≠ other := fun heq => hrest (heq ▸ hcaptured)
        simp [bindSlot, List.lookup_cons, beq_false_of_ne hne]
  have hmem : (fields.reverse.lookup name).isSome = true := by
    rw [lookup_isSome_iff_mem_keys, List.map_reverse, List.mem_reverse]
    exact hnames x hx name hname
  obtain ⟨place, hlookup⟩ := Option.isSome_iff_exists.mp hmem
  obtain ⟨f, s, hslot, rfl⟩ :=
    hplaces (name, place) (List.mem_reverse.mp (mem_of_lookup_eq_some hlookup))
  refine ⟨f, s, hslot, ?_⟩
  rw [Bindings.get?_ofList, List.reverse_append, List.lookup_append, hcapture, List.reverse_append,
    List.lookup_append, hlookup]
  rfl

end TuplePattern

/-! ### The places of positional parts -/

/-- The numbers of an alignment are those of a count: nothing is subtracted from a smaller number,
and what is added up is at most the count. -/
structure Alignment.Within (a : Alignment) (p : TuplePattern Pattern) (count : Nat) : Prop where
  fixedCount_le : p.fixedCount ≤ count
  before_le : a.before ≤ p.fixedCount
  restStart_le : a.restStart ≤ a.restStop
  restStop_le : a.restStop ≤ count
  valueIndex?_lt : ∀ i < p.positional.length, ∀ j, a.valueIndex? i = some j → j < count

/-- With one rest marker at most, the alignment stays within the values. -/
theorem TuplePattern.SingleRest.within {p : TuplePattern Pattern} (h : p.SingleRest) {count : Nat}
    {a : Alignment} (ha : p.align count = .ok a) : a.Within p count := by
  by_cases hcount : p.CountFits count
  swap
  · rw [align_of_not_countFits h hcount] at ha
    cases ha
  rw [align_of_countFits h hcount] at ha
  cases ha
  have hfixed := h.fixedCount_eq
  have hle := h.length_le hcount
  refine ⟨by omega, ?_, ?_, Nat.sub_le _ _, fun i hi j => h.valueIndex?_lt hcount hi⟩
  · show p.leading.length ≤ _
    omega
  · show (if p.hasRest then p.leading.length else count) ≤ count - p.trailing.length
    rcases h.positional_cases with ⟨hrest, -, htrailing⟩ | ⟨hrest, -⟩
    · simp [hrest, htrailing]
    · rw [hrest, if_pos rfl]
      omega

/-! ### The exact range -/

/-- What is true of the sums for a layout with `positional` positional members and `count`
fields. -/
structure Layout.SlotArithmetic (l : Layout) (positional count : Nat) : Prop where
  /-- No two fields share a slot. -/
  distinct : (l.slots.map Prod.snd).Nodup
  /-- The fields take slots behind the positional members, and their slots are words. -/
  slot_range : ∀ f s, l.slotOf? f = some s → positional ≤ s ∧ s < slotLimit
  /-- The number of slots is that of the members, unless that is no word. -/
  length?_eq :
    l.length? = if positional + count < slotLimit then some (positional + count) else none
  /-- Only the layout without members is found to be empty. -/
  isEmpty?_iff : l.isEmpty? = some true ↔ positional = 0 ∧ count = 0
  /-- Matching the layout binds each name of a field to such a slot. -/
  places : ∀ (p : TuplePattern Pattern) places, p.matchLayout l = .ok (.matched places) →
    ∀ x ∈ p.fields, ∀ name, TuplePattern.fieldName? x.1 x.2 = some name →
      p.namedRest ≠ some name →
        ∃ s, places.get? name = some (.slot s) ∧ positional ≤ s ∧ s < slotLimit

/-- A layout for slots that are words has sums as numbers have them. -/
theorem Layout.slotArithmetic {l : Layout}
    (hwords : Layout.slotsAreWords l.positional l.fields = true) :
    l.SlotArithmetic l.positional l.fields.length := by
  have hrange : ∀ f s, l.slotOf? f = some s → l.positional ≤ s ∧ s < slotLimit := by
    intro f s hs
    obtain ⟨i, hi, rfl⟩ := l.slotOf?_eq_some_iff.mp hs
    have hlt := (List.getElem?_eq_some_iff.mp hi).1
    rcases slotsAreWords_iff.mp hwords with hnil | hle
    · rw [hnil, List.length_nil] at hlt
      omega
    · omega
  refine ⟨l.nodup_map_snd_slots, hrange, rfl, isEmpty?_eq_some_true_iff, ?_⟩
  intro p places hmatch x hx name hname hrest
  obtain ⟨f, s, hslot, hget⟩ := TuplePattern.get?_of_matched_field hmatch hx hname hrest
  exact ⟨s, hget, hrange f s hslot⟩

namespace TuplePattern

/-- For every positional count and all distinct fields: a layout, new or from a cache that was used
in any way, is to be had exactly if it has no fields or no more members than there are words;
otherwise the program stops and the cache stays as it was. The sums for a layout are those of
numbers, and the program stops at the number of slots exactly if it is no word. Whatever the count,
a pattern is aligned with numbers within it. -/
theorem slot_arithmetic_exact (id : Nat) (canonicalize : Bool)
    (requests : List LayoutCache.Request) (positional : Nat) {fields : List Symbol}
    (hfields : fields.Nodup) (tag : Option Symbol) :
    let c := ((LayoutCache.empty id canonicalize).tryServeAll requests).2
    (fields = [] ∨ positional + fields.length ≤ slotLimit →
      (∃ l, Layout.tryBuild positional fields tag = some (.ok l) ∧
        l.SlotArithmetic positional fields.length) ∧
      ∃ shared, (c.tryConstruct positional fields tag).1 = some (.ok shared) ∧
        shared.layout.SlotArithmetic positional fields.length) ∧
    (¬(fields = [] ∨ positional + fields.length ≤ slotLimit) →
      Layout.tryBuild positional fields tag = none ∧
        c.tryConstruct positional fields tag = (none, c)) ∧
    ∀ p : TuplePattern Pattern, p.validate = .ok () → ∀ a, p.align positional = .ok a →
      a.Within p positional := by
  intro c
  have hc : c.Valid := LayoutCache.tryServeAll_induction
    (fun _ r h => h.tryServe r) (LayoutCache.valid_empty id canonicalize) requests
  have hkeeps : c.KeepsWords := LayoutCache.tryServeAll_induction
    (fun _ r h => h.tryServe r) (LayoutCache.keepsWords_empty id canonicalize) requests
  rw [← Layout.slotsAreWords_iff]
  refine ⟨fun hwords => ⟨⟨.declare positional hfields tag, ?_, ?_⟩, ?_⟩, fun hwords => ?_,
    fun p hp a ha => (validate_eq_ok_iff.mp hp).1.within ha⟩
  · rw [Layout.tryBuild_eq_build hwords, Layout.build_eq_ok hfields]
  · exact Layout.slotArithmetic (l := Layout.declare positional hfields tag) hwords
  · obtain ⟨shared, c', hconstruct, hshape, -⟩ := hc.exists_construct hfields positional tag
    refine ⟨shared, by rw [LayoutCache.tryConstruct_eq_construct hwords, hconstruct], ?_⟩
    rw [← hshape.positional_eq, ← Layout.slotsAreWords_congr hshape.fields_perm] at hwords
    have harithmetic := Layout.slotArithmetic (l := shared.layout) hwords
    rwa [hshape.positional_eq, hshape.fields_perm.length_eq] at harithmetic
  · rw [Bool.not_eq_true] at hwords
    have hkept := LayoutCache.kept?_of_not_words hc hkeeps
      (r := .construct positional fields tag) hwords
    rw [LayoutCache.Request.fields, repeatedField?_eq_none_iff.mpr hfields] at hkept
    refine ⟨Layout.tryBuild_eq_none hwords tag, ?_⟩
    rw [LayoutCache.tryConstruct_of_not_words hwords]
    exact congrArg (·, c) (hkept.trans (by split_ifs <;> rfl))

/-- One field behind as many positional members as there are words but one: it has the last slot,
but the number of slots is no word. -/
theorem slot_arithmetic_exact_of_one_field :
    ∃ l, Layout.tryBuild (slotLimit - 1) [⟨1⟩] none = some (.ok l) ∧ l.length? = none ∧
      ∀ f s, l.slotOf? f = some s → slotLimit - 1 ≤ s ∧ s < slotLimit := by
  obtain ⟨hbuilt, -⟩ := slot_arithmetic_exact 0 true [] (slotLimit - 1)
    (show ([⟨1⟩] : List Symbol).Nodup by decide) none
  obtain ⟨⟨l, hl, harithmetic⟩, -⟩ := hbuilt (.inr (by decide))
  exact ⟨l, hl, harithmetic.length?_eq.trans (by decide), harithmetic.slot_range⟩

/-- At the last positional count the program stops at a declaration of two fields. It builds the
layout of one field, and stops when it is asked for its slots. -/
theorem stops_at_last_word :
    Layout.tryBuild (slotLimit - 1) [⟨1⟩, ⟨2⟩] none = none ∧
    ∃ shared, ((LayoutCache.empty 0 true).tryConstruct (slotLimit - 1) [⟨1⟩] none).1
        = some (.ok shared) ∧
      shared.layout.length? = none ∧ shared.layout.isEmpty? = none := by
  have hwords : Layout.slotsAreWords (slotLimit - 1) [⟨1⟩] = true := by decide
  have hnodup : ([⟨1⟩] : List Symbol).Nodup := by decide
  refine ⟨Layout.tryBuild_eq_none_iff.mpr ⟨List.cons_ne_nil _ _, by decide⟩, ?_⟩
  rw [LayoutCache.tryConstruct_eq_construct hwords,
    LayoutCache.construct_of_canonicalize rfl hnodup]
  exact ⟨_, rfl, by rfl, by rfl⟩

end TuplePattern

end TaggedTuple
