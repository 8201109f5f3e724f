import TaggedTuple.Proofs.Tuple.Built
import TaggedTuple.Proofs.Tuple.Extensionality

/-!
# Slices and projections

`Tuple.SliceOf` and `Tuple.ProjectionOf` say what a part of a tuple is in terms of reading both. A
slice is there for each range within the positional members and a projection for each list of
distinct fields of the tuple, whatever the cache has served before (`exists_slicePositional_iff`,
`exists_projectNamed_iff`).

Parts of parts are parts of the whole: slices add up their starts, and projections forget what was
in between. `parts_read_back_and_compose` puts this together.
-/

namespace TaggedTuple

namespace Tuple

variable {α : Type}

/-- `u` holds the positional members of `t` from `start` up to but not including `stop`. -/
structure SliceOf (t u : Tuple α) (start stop : Nat) : Prop where
  built : u.Built
  tag : u.tag = none
  arity : u.arity = stop - start
  fields : u.layout.fields = []
  get : ∀ i < stop - start, u.get i = t.get (start + i)

/-- `u` holds the named members of `t` with the given fields. -/
structure ProjectionOf (t u : Tuple α) (fields : List Symbol) : Prop where
  built : u.Built
  tag : u.tag = none
  arity : u.arity = 0
  fields_perm : u.layout.fields.Perm fields
  getField : ∀ f ∈ fields, u.getField f = t.getField f

section parts

variable {t u : Tuple α} {c : LayoutCache} (hc : c.Valid)

/-! ### Slices -/

section slice

variable {start stop : Nat}

/-- A slice of a slice starts as many members later. -/
theorem drop_take_drop_take (as : List α) {low high : Nat} (h : start + high ≤ stop) :
    (((as.take stop).drop start).take high).drop low
      = (as.take (start + high)).drop (start + low) := by
  rw [List.take_drop, List.take_take, List.drop_drop, Nat.min_eq_left h]

include hc

/-- There is a slice for every range within the arity. -/
theorem exists_slicePositional_iff (ht : t.WellFormed) :
    (∃ u, (t.slicePositional start stop c).1 = .ok u) ↔ start ≤ stop ∧ stop ≤ t.arity := by
  have harity : t.positional.length = t.arity := ht.positional_length
  rw [← harity]
  rcases t.slicePositional_cases start stop hc with ⟨hle, hle', u, c', hu, -⟩ | ⟨hrange, herror⟩
  · exact ⟨fun _ => ⟨hle, hle'⟩, fun _ => ⟨u, by rw [hu]⟩⟩
  · refine ⟨fun ⟨u, hu⟩ => ?_, fun h => absurd h hrange⟩
    rw [herror] at hu
    cases hu

/-- A slice holds the members between its bounds. -/
theorem hasMembers_of_slice (h : (t.slicePositional start stop c).1 = .ok u) :
    u.HasMembers none ((t.positional.take stop).drop start) fun _ => none :=
  (hasMembers_of_slicePositional hc (Prod.ext h rfl)).1

/-- Slices exist within the positional members and hold what their range says. -/
theorem exists_hasMembers_slice (ht : t.WellFormed) (hle : start ≤ stop) (hle' : stop ≤ t.arity) :
    ∃ u, (t.slicePositional start stop c).1 = .ok u ∧
      u.HasMembers none ((t.positional.take stop).drop start) fun _ => none := by
  obtain ⟨u, hu⟩ := (exists_slicePositional_iff hc ht).mpr ⟨hle, hle'⟩
  exact ⟨u, hu, hasMembers_of_slice hc hu⟩

/-- The slice that is returned is the slice of the tuple. -/
theorem sliceOf_of_slicePositional (ht : t.WellFormed)
    (h : (t.slicePositional start stop c).1 = .ok u) : t.SliceOf u start stop := by
  obtain ⟨hle, hle'⟩ := (exists_slicePositional_iff hc ht).mp ⟨u, h⟩
  have hmembers := hasMembers_of_slice hc h
  have hu := hmembers.wellFormed
  have hlength : u.positional.length = stop - start := by
    rw [hmembers.positional_eq, List.length_drop, List.length_take, ht.positional_length]
    exact congrArg (· - start) (Nat.min_eq_left hle')
  have hfields : u.layout.fields = [] := by
    rw [List.eq_nil_iff_forall_not_mem]
    intro f
    rw [← hu.field?_eq_none_iff, hmembers.field?_eq]
  refine ⟨built_iff.mpr hu, hmembers.tag_eq, hu.positional_length.symm.trans hlength, hfields,
    fun i hi => ?_⟩
  -- both sides read one member of the positional members of the whole tuple
  have hlt : start + i < t.positional.length := by
    have harity : t.positional.length = t.arity := ht.positional_length
    omega
  have hwhole : t.get (start + i) = .ok t.positional[start + i] :=
    ht.getKey_index_eq_ok_iff.mpr (List.getElem?_eq_getElem hlt)
  rw [hwhole]
  apply hu.getKey_index_eq_ok_iff.mpr
  rw [hmembers.positional_eq, List.getElem?_drop, List.getElem?_take_of_lt (by omega)]
  exact List.getElem?_eq_getElem hlt

/-- A slice of a slice is a slice of the whole. -/
theorem exists_slice_of_slice [BEq α] (ht : t.WellFormed)
    (h : (t.slicePositional start stop c).1 = .ok u) {low high : Nat} (hle : low ≤ high)
    (hle' : high ≤ stop - start) {d d' : LayoutCache} (hd : d.Valid) (hd' : d'.Valid) :
    ∃ v w, (u.slicePositional low high d).1 = .ok v ∧
      (t.slicePositional (start + low) (start + high) d').1 = .ok w ∧ v.Coincides w := by
  obtain ⟨hrange, hrange'⟩ := (exists_slicePositional_iff hc ht).mp ⟨u, h⟩
  have hslice := sliceOf_of_slicePositional hc ht h
  have hmembers := hasMembers_of_slice hc h
  obtain ⟨v, hv, hvmembers⟩ := exists_hasMembers_slice hd hmembers.wellFormed hle
    (by rw [hslice.arity]; exact hle')
  obtain ⟨w, hw, hwmembers⟩ := exists_hasMembers_slice hd' ht
    (Nat.add_le_add_left hle start) (by omega)
  rw [hmembers.positional_eq, drop_take_drop_take _ (by omega)] at hvmembers
  exact ⟨v, w, hv, hw, hvmembers.coincides hwmembers⟩

/-- Two slices that meet make up the positional members. -/
theorem exists_slices_append (ht : t.WellFormed) {k : Nat} (hk : k ≤ t.arity) {d : LayoutCache}
    (hd : d.Valid) :
    ∃ u v, (t.slicePositional 0 k c).1 = .ok u ∧ (t.slicePositional k t.arity d).1 = .ok v ∧
      u.positional ++ v.positional = t.positional := by
  obtain ⟨u, hu, humembers⟩ := exists_hasMembers_slice hc ht (Nat.zero_le k) hk
  obtain ⟨v, hv, hvmembers⟩ := exists_hasMembers_slice hd ht hk (Nat.le_refl _)
  have hall : t.positional.take t.arity = t.positional :=
    List.take_of_length_le (Nat.le_of_eq ht.positional_length)
  refine ⟨u, v, hu, hv, ?_⟩
  rw [humembers.positional_eq, hvmembers.positional_eq, hall, List.drop_zero,
    List.take_append_drop]

end slice

/-! ### Projections -/

section project

variable {fields : List Symbol}
include hc

/-- There is a projection for distinct fields of the tuple. -/
theorem exists_projectNamed_iff (ht : t.WellFormed) :
    (∃ u, (t.projectNamed fields c).1 = .ok u) ↔
      fields.Nodup ∧ ∀ f ∈ fields, f ∈ t.layout.fields := by
  simp only [← ht.isSome_field?_iff]
  rcases t.projectNamed_cases fields hc with
    ⟨f, hf, herror⟩ | ⟨-, f, hf, hnone, c', herror, -⟩ | ⟨hnodup, hall, u, c', hu, -⟩
  · refine ⟨fun ⟨u, hu⟩ => ?_, fun h => absurd h.1 (not_nodup_of_repeatedField? hf)⟩
    rw [herror] at hu
    cases hu
  · refine ⟨fun ⟨u, hu⟩ => ?_, fun h => ?_⟩
    · rw [herror] at hu
      cases hu
    · have hsome := h.2 f hf
      rw [hnone] at hsome
      cases hsome
  · exact ⟨fun _ => ⟨hnodup, hall⟩, fun _ => ⟨u, by rw [hu]⟩⟩

/-- A projection holds the listed fields. -/
theorem hasMembers_of_projection (h : (t.projectNamed fields c).1 = .ok u) :
    u.HasMembers none [] fun f => if f ∈ fields then t.field? f else none :=
  (hasMembers_of_projectNamed hc (Prod.ext h rfl)).1

/-- Distinct fields of the tuple can be projected. -/
theorem exists_hasMembers_projection (ht : t.WellFormed) (hnodup : fields.Nodup)
    (hall : ∀ f ∈ fields, f ∈ t.layout.fields) :
    ∃ u, (t.projectNamed fields c).1 = .ok u ∧
      u.HasMembers none [] fun f => if f ∈ fields then t.field? f else none := by
  obtain ⟨u, hu⟩ := (exists_projectNamed_iff hc ht).mpr ⟨hnodup, hall⟩
  exact ⟨u, hu, hasMembers_of_projection hc hu⟩

/-- The projection that is returned is the projection of the tuple. -/
theorem projectionOf_of_projectNamed (ht : t.WellFormed)
    (h : (t.projectNamed fields c).1 = .ok u) : t.ProjectionOf u fields := by
  obtain ⟨hnodup, hall⟩ := (exists_projectNamed_iff hc ht).mp ⟨u, h⟩
  have hmembers := hasMembers_of_projection hc h
  have hu := hmembers.wellFormed
  have harity : u.arity = 0 := by
    rw [arity, ← hu.positional_length, hmembers.positional_eq]
    rfl
  refine ⟨built_iff.mpr hu, hmembers.tag_eq, harity, ?_, fun f hf => ?_⟩
  · rw [List.perm_ext_iff_of_nodup u.layout.fields_nodup hnodup]
    intro f
    rw [← hu.isSome_field?_iff, hmembers.field?_eq]
    split_ifs with hf
    · exact iff_of_true (ht.isSome_field?_iff.mpr (hall f hf)) hf
    · exact iff_of_false Bool.false_ne_true hf
  · rw [Tuple.getField, Tuple.getField, hmembers.field?_eq, if_pos hf]

/-- A projection of a projection is a projection of the whole. -/
theorem exists_projection_of_projection [BEq α] (ht : t.WellFormed)
    (h : (t.projectNamed fields c).1 = .ok u) {fewer : List Symbol} (hnodup : fewer.Nodup)
    (hsub : ∀ f ∈ fewer, f ∈ fields) {d d' : LayoutCache} (hd : d.Valid) (hd' : d'.Valid) :
    ∃ v w, (u.projectNamed fewer d).1 = .ok v ∧ (t.projectNamed fewer d').1 = .ok w ∧
      v.Coincides w := by
  obtain ⟨-, hall⟩ := (exists_projectNamed_iff hc ht).mp ⟨u, h⟩
  have hprojection := projectionOf_of_projectNamed hc ht h
  have hmembers := hasMembers_of_projection hc h
  obtain ⟨v, hv, hvmembers⟩ := exists_hasMembers_projection hd hmembers.wellFormed hnodup
    fun f hf => hprojection.fields_perm.mem_iff.mpr (hsub f hf)
  obtain ⟨w, hw, hwmembers⟩ := exists_hasMembers_projection hd' ht hnodup
    fun f hf => hall f (hsub f hf)
  have hnamed : (fun f => if f ∈ fewer then u.field? f else none)
      = fun f => if f ∈ fewer then t.field? f else none := by
    funext f
    split_ifs with hf
    · rw [hmembers.field?_eq, if_pos (hsub f hf)]
    · rfl
  rw [hnamed] at hvmembers
  exact ⟨v, w, hv, hw, hvmembers.coincides hwmembers⟩

end project

end parts

/-! ### The law -/

/-- Slices and projections are there exactly where they should be, read as the tuple does, and
compose. None of the caches matters that serve the layouts, in whatever state they are. -/
theorem parts_read_back_and_compose [BEq α] {t : Tuple α} (ht : t.Built) {c : LayoutCache}
    (hc : c.Valid) :
    (∀ start stop, (∃ u, (t.slicePositional start stop c).1 = .ok u) ↔
      start ≤ stop ∧ stop ≤ t.arity) ∧
    (∀ start stop u, (t.slicePositional start stop c).1 = .ok u → t.SliceOf u start stop ∧
      ∀ low high, low ≤ high → high ≤ stop - start → ∀ d d' : LayoutCache, d.Valid → d'.Valid →
        ∃ v w, (u.slicePositional low high d).1 = .ok v ∧
          (t.slicePositional (start + low) (start + high) d').1 = .ok w ∧ v.Coincides w) ∧
    (∀ k ≤ t.arity, ∀ d : LayoutCache, d.Valid →
      ∃ u v, (t.slicePositional 0 k c).1 = .ok u ∧ (t.slicePositional k t.arity d).1 = .ok v ∧
        u.positional ++ v.positional = t.positional) ∧
    (∀ fields, (∃ u, (t.projectNamed fields c).1 = .ok u) ↔
      fields.Nodup ∧ ∀ f ∈ fields, f ∈ t.layout.fields) ∧
    ∀ fields u, (t.projectNamed fields c).1 = .ok u → t.ProjectionOf u fields ∧
      ∀ fewer : List Symbol, fewer.Nodup → (∀ f ∈ fewer, f ∈ fields) →
        ∀ d d' : LayoutCache, d.Valid → d'.Valid →
          ∃ v w, (u.projectNamed fewer d).1 = .ok v ∧ (t.projectNamed fewer d').1 = .ok w ∧
            v.Coincides w := by
  rw [built_iff] at ht
  refine ⟨fun start stop => exists_slicePositional_iff hc ht, fun start stop u h => ⟨?_, ?_⟩,
    fun k hk d hd => exists_slices_append hc ht hk hd, fun fields => exists_projectNamed_iff hc ht,
    fun fields u h => ⟨?_, ?_⟩⟩
  · exact sliceOf_of_slicePositional hc ht h
  · exact fun low high hle hle' d d' hd hd' => exists_slice_of_slice hc ht h hle hle' hd hd'
  · exact projectionOf_of_projectNamed hc ht h
  · exact fun fewer hnodup hsub d d' hd hd' =>
      exists_projection_of_projection hc ht h hnodup hsub hd hd'

/-- A tagged tuple whose fields the cache has declared the other way around: its fields, the last
one of them, its last two members, the last one of them, and two parts that it does not have. -/
theorem parts_read_back_and_compose_of_tagged_tuple :
    let l : Layout := .declare 3 (show [(⟨2⟩ : Symbol), ⟨1⟩].Nodup by decide) (some ⟨5⟩)
    let t : Tuple Nat := ⟨⟨0, 0, l⟩, [1, 2, 3], [20, 10]⟩
    let c := ((LayoutCache.empty 1 true).construct 0 [⟨1⟩, ⟨2⟩] none).2
    let d := LayoutCache.empty 2 false
    let project : Tuple Nat := ⟨⟨1, 0, .ascendingPair 0⟩, [], [10, 20]⟩
    let slice : Tuple Nat := ⟨⟨1, 1, .ofPositional 2⟩, [2, 3], []⟩
    (t.ProjectionOf project [⟨2⟩, ⟨1⟩] ∧ ∃ v w, (project.projectNamed [⟨1⟩] d).1 = .ok v ∧
        (t.projectNamed [⟨1⟩] c).1 = .ok w ∧ v.Coincides w) ∧
      (t.SliceOf slice 1 3 ∧ ∃ v w, (slice.slicePositional 1 2 d).1 = .ok v ∧
        (t.slicePositional 2 3 c).1 = .ok w ∧ v.Coincides w) ∧
      (¬∃ u, (t.slicePositional 2 4 c).1 = .ok u) ∧
        ¬∃ u, (t.projectNamed [⟨1⟩, ⟨3⟩] c).1 = .ok u := by
  intro l t c d project slice
  have ht : t.Built := built_iff.mpr ⟨rfl, rfl⟩
  have hc : c.Valid := (LayoutCache.valid_empty 1 true).construct 0 _ none
  have hd : d.Valid := LayoutCache.valid_empty 2 false
  have hproject : (t.projectNamed [⟨2⟩, ⟨1⟩] c).1 = .ok project := by with_unfolding_all rfl
  have hslice : (t.slicePositional 1 3 c).1 = .ok slice := by with_unfolding_all rfl
  obtain ⟨hslices, hsliceOf, -, hprojects, hprojectionOf⟩ := parts_read_back_and_compose ht hc
  obtain ⟨hof, hfewer⟩ := hprojectionOf _ _ hproject
  obtain ⟨hof', hshorter⟩ := hsliceOf _ _ _ hslice
  refine ⟨⟨hof, hfewer [⟨1⟩] (by decide) (by decide) d c hd hc⟩,
    ⟨hof', hshorter 1 2 (by decide) (by decide) d c hd hc⟩, ?_, ?_⟩
  · rw [hslices]
    decide
  · rw [hprojects]
    decide

end Tuple

end TaggedTuple
