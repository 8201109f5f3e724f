import TaggedTuple.Pattern.LayoutMatching
import TaggedTuple.Proofs.Pattern.Bindings
import TaggedTuple.Proofs.Pattern.Names
import TaggedTuple.Proofs.Transparency.Operations

/-!
# The places of names and the values that are bound

Matching a layout binds names to places, matching a tuple binds them to values.
`SlotBinding.Resolves` says which values a place gives: the one that the slot stores, or the tuple
that the capture builds, on whatever cache.

The two matches go through the same pattern in the same order. `InStep` is the relation that they
keep between what they have bound so far: each place goes with a binding of the same name whose
value it gives, and bindings without a place come from nested patterns only. It is closed under
appending, so one lemma for each kind of part is enough (`keepsStep_matchPositional`,
`keepsStep_matchFields`, `keepsStep_projectNamed`).
-/

namespace TaggedTuple

namespace SlotBinding

/-- A place gives a value: the one that is stored in the slot, or the tuple that the capture builds,
on whatever cache. -/
def Resolves (t : Tuple Value) (v : Value) : SlotBinding → Prop
  | .slot i => t.members[i]? = some v
  | .positionalRest start stop => ∀ cache : LayoutCache, cache.Valid →
    ∃ u cache', t.slicePositional start stop cache = (.ok u, cache') ∧ (Value.tuple u == v) = true
  | .namedRest fields => ∀ cache : LayoutCache, cache.Valid →
    ∃ u cache', t.projectNamed fields cache = (.ok u, cache') ∧ (Value.tuple u == v) = true

end SlotBinding

namespace Pattern

/-- A pattern that always matches and looks at nothing inside the value. -/
def Simple (p : Pattern) : Prop := p = .wildcard ∨ ∃ name, p = .bind name

end Pattern

namespace TuplePattern

/-- All sub-patterns are wildcards or bind a name. -/
structure Flat (p : TuplePattern Pattern) : Prop where
  positional : ∀ q, .sub q ∈ p.positional → q.Simple
  fields : ∀ key q, (key, .sub q) ∈ p.fields → q.Simple

end TuplePattern

/-! ### Places and bindings side by side -/

/-- Each place goes with a binding of the same name, in the same order. Bindings without a place, as
those of nested patterns, stand between them only if `nested` holds. -/
inductive InStep (r : SlotBinding → Value → Prop) (nested : Prop) :
    List (Symbol × SlotBinding) → List (Symbol × Value) → Prop
  | nil : InStep r nested [] []
  | both {name : Symbol} {place : SlotBinding} {v : Value} {places : List (Symbol × SlotBinding)}
    {bound : List (Symbol × Value)} (h : r place v) (tail : InStep r nested places bound) :
    InStep r nested ((name, place) :: places) ((name, v) :: bound)
  | inner {x : Symbol × Value} {places : List (Symbol × SlotBinding)}
    {bound : List (Symbol × Value)} (h : nested) (tail : InStep r nested places bound) :
    InStep r nested places (x :: bound)

namespace InStep

variable {r : SlotBinding → Value → Prop} {nested : Prop}
  {places places' : List (Symbol × SlotBinding)} {bound bound' : List (Symbol × Value)}

/-- Places and values in step stay so when more of both follow. -/
theorem append (h : InStep r nested places bound) (h' : InStep r nested places' bound') :
    InStep r nested (places ++ places') (bound ++ bound') := by
  induction h with
  | nil => exact h'
  | both hplace _ ih => exact .both hplace ih
  | inner hnested _ ih => exact .inner hnested ih

/-- Under nested patterns, values may be bound that have no place. -/
theorem of_nested (h : nested) (bound : List (Symbol × Value)) : InStep r nested [] bound := by
  induction bound with
  | nil => exact .nil
  | cons x bound ih => exact .inner h ih

/-- Without nested patterns, places and values pair up one to one. -/
theorem forall₂ (h : InStep r nested places bound) (hflat : ¬nested) :
    List.Forall₂ (fun x y => x.1 = y.1 ∧ r x.2 y.2) places bound := by
  induction h with
  | nil => exact .nil
  | both hplace _ ih => exact .cons ⟨rfl, hplace⟩ ih
  | inner hnested _ _ => exact absurd hnested hflat

/-- The names of the places are among the names bound, in order. -/
theorem sublist (h : InStep r nested places bound) :
    (places.map Prod.fst).Sublist (bound.map Prod.fst) := by
  induction h with
  | nil => exact .slnil
  | both _ _ ih => exact ih.cons_cons _
  | inner _ _ ih => exact ih.cons _

/-- Every place has its value. -/
theorem exists_of_mem (h : InStep r nested places bound) {name : Symbol} {place : SlotBinding}
    (hmem : (name, place) ∈ places) : ∃ v, (name, v) ∈ bound ∧ r place v := by
  induction h with
  | nil => cases hmem
  | @both _ _ v _ _ hplace _ ih =>
      rcases List.mem_cons.mp hmem with heq | hmem
      · cases heq
        exact ⟨v, List.mem_cons_self, hplace⟩
      · obtain ⟨w, hw, hplace⟩ := ih hmem
        exact ⟨w, List.mem_cons_of_mem _ hw, hplace⟩
  | inner _ _ ih =>
      obtain ⟨w, hw, hplace⟩ := ih hmem
      exact ⟨w, List.mem_cons_of_mem _ hw, hplace⟩

end InStep

/-! ### Where values are found -/

section resolves

variable {t : Tuple Value} (ht : t.WellFormed)
include ht

/-- A slot resolves to the member stored there. -/
theorem resolves_index {i : Nat} {v : Value} (h : t.at? i = some v) :
    (SlotBinding.slot i).Resolves t v := by
  rw [ht.at?_eq] at h
  show (t.positional ++ t.values)[i]? = some v
  rw [List.getElem?_append_left (List.getElem?_eq_some_iff.mp h).1]
  exact h

/-- The fields take the slots after the positional members. -/
theorem resolves_field {f : Symbol} {s : Nat} {v : Value} (hslot : t.layout.slotOf? f = some s)
    (h : t.field? f = some v) : (SlotBinding.slot s).Resolves t v := by
  obtain ⟨i, hi, rfl⟩ := t.layout.slotOf?_eq_some_iff.mp hslot
  have hposition := t.layout.positionOf?_eq_some_iff.mpr hi
  have hv : t.values[i]? = some v := by simpa [Tuple.field?, hposition] using h
  show (t.positional ++ t.values)[t.layout.positional + i]? = some v
  rw [← ht.positional_length, List.getElem?_append_right (Nat.le_add_right ..),
    Nat.add_sub_cancel_left]
  exact hv

end resolves

section captures

variable {t u : Tuple Value} (ht : (Value.tuple t).WellFormed) {cache cache' : LayoutCache}
  (hc : cache.Valid)
include ht hc

/-- A positional rest resolves to the slice. -/
theorem resolves_slicePositional {start stop : Nat}
    (h : t.slicePositional start stop cache = (.ok u, cache')) :
    (SlotBinding.positionalRest start stop).Resolves t (.tuple u) := by
  intro other hother
  have hself : t.Agree t := Value.Agree.refl ht
  obtain ⟨hresult, -, -⟩ := hself.slicePositional start stop hother hc
  rw [h] at hresult
  rcases hslice : t.slicePositional start stop other with ⟨result, other'⟩
  rw [hslice] at hresult
  cases hresult with
  | ok hagree => exact ⟨_, other', rfl, hagree.beq⟩

/-- A named rest resolves to the projection. -/
theorem resolves_projectNamed {fields : List Symbol}
    (h : t.projectNamed fields cache = (.ok u, cache')) :
    (SlotBinding.namedRest fields).Resolves t (.tuple u) := by
  intro other hother
  have hself : t.Agree t := Value.Agree.refl ht
  obtain ⟨hresult, -, -⟩ := hself.projectNamed (.refl fields) hother hc
  rw [h] at hresult
  rcases hproject : t.projectNamed fields other with ⟨result, other'⟩
  rw [hproject] at hresult
  cases hresult with
  | ok hagree => exact ⟨_, other', rfl, hagree.beq⟩

end captures

/-! ### The two matches keep step -/

/-- When the match succeeds, what it binds is in step with the places, each of which gives the value
that is bound. -/
def Matching.KeepsStep (m : Matching Value) (t : Tuple Value) (nested : Prop)
    (places : List (Symbol × SlotBinding)) : Prop :=
  m.Ensures (InStep (fun place v => place.Resolves t v) nested places)

namespace Matching

variable {t : Tuple Value} {nested : Prop} {a b : Matching Value}
  {places places' : List (Symbol × SlotBinding)}

/-- A match that binds nothing keeps step with no places. -/
theorem keepsStep_nothing : (nothing : Matching Value).KeepsStep t nested [] :=
  ensures_nothing .nil

/-- A binder keeps step with the place of its value. -/
theorem keepsStep_bind {name : Symbol} {v : Value} {place : SlotBinding}
    (h : place.Resolves t v) :
    (bind name v).KeepsStep t nested [(name, place)] :=
  ensures_bind (.both h .nil)

/-- Sequences keep step when both of their halves do. -/
theorem KeepsStep.followedBy (ha : a.KeepsStep t nested places)
    (hb : b.KeepsStep t nested places') :
    (a.followedBy b).KeepsStep t nested (places ++ places') :=
  Ensures.followedBy ha hb fun _ _ hbound hmore => hbound.append hmore

/-- What a nested pattern binds has no places. -/
theorem BindsNames.keepsStep {names : List Symbol} (h : a.BindsNames names) (hnested : nested) :
    a.KeepsStep t nested [] := by
  intro cache bound cache' hc hm
  exact ⟨.of_nested hnested bound, (h cache bound cache' hc hm).2⟩

end Matching

namespace TuplePattern

open Matching (KeepsStep keepsStep_nothing keepsStep_bind)

variable {t : Tuple Value} {nested : Prop}

/-- A sub-pattern binds at most its own name, unless it is a nested pattern. -/
theorem keepsStep_sub {q : Pattern} (hq : q.Simple ∨ nested) (hvalid : q.validate = .ok ())
    {v : Value} (hv : v.WellFormed) {place : SlotBinding}
    (h : place.Resolves t v) :
    (q.matchInto v).KeepsStep t nested (bindSlot q.boundName? (some place)) := by
  by_cases hsimple : q.Simple
  · rcases hsimple with rfl | ⟨name, rfl⟩
    · exact keepsStep_nothing
    · exact keepsStep_bind h
  · have hnested := hq.resolve_left hsimple
    have hnone : q.boundName? = none := by
      cases q with
      | bind name => exact absurd (.inr ⟨name, rfl⟩) hsimple
      | wildcard => rfl
      | literal l => rfl
      | tuple p => rfl
    rw [hnone]
    exact (q.bindsNames_matchInto hvalid hv).keepsStep hnested

variable (ht : (Value.tuple t).WellFormed)
include ht

/-- The capture of a slice keeps step with its range. -/
theorem keepsStep_slicePositional (name : Symbol) (start stop : Nat) :
    (Matching.capture .tuple name (t.slicePositional start stop)).KeepsStep t nested
      [(name, .positionalRest start stop)] := by
  refine Matching.ensures_capture fun cache u cache' hc hbuild => ⟨?_, ?_⟩
  · exact .both (resolves_slicePositional ht hc hbuild) .nil
  · exact (Tuple.hasMembers_of_slicePositional hc hbuild).2

/-- The capture of a projection keeps step with its fields. -/
theorem keepsStep_projectNamed (name : Symbol) (fields : List Symbol) :
    (Matching.capture .tuple name (t.projectNamed fields)).KeepsStep t nested
      [(name, .namedRest fields)] := by
  refine Matching.ensures_capture fun cache u cache' hc hbuild => ⟨?_, ?_⟩
  · exact .both (resolves_projectNamed ht hc hbuild) .nil
  · exact (Tuple.hasMembers_of_projectNamed hc hbuild).2

/-- Positional parts keep step with the places found for them. -/
theorem keepsStep_matchPositional {alignment : Alignment} (i : Nat)
    {parts : List (PositionalPattern Pattern)}
    (hparts : ∀ q, .sub q ∈ parts → (q.Simple ∨ nested) ∧ q.validate = .ok ())
    (hvalue : ∀ k < parts.length, ∀ j, alignment.valueIndex? (i + k) = some j → j < t.arity) :
    (matchPositional .tuple alignment t i (parts.map (·.map Pattern.matchInto))).KeepsStep t nested
      (placePositional alignment i parts) := by
  have hwf := (Value.wellFormed_tuple_iff.mp ht).1
  induction parts generalizing i with
  | nil => exact keepsStep_nothing
  | cons part parts ih =>
      have hlater : ∀ k < parts.length, ∀ j,
          alignment.valueIndex? (i + 1 + k) = some j → j < t.arity := by
        intro k hk j hj
        apply hvalue (k + 1) (Nat.succ_lt_succ hk) j
        rwa [← Nat.add_assoc, Nat.add_right_comm]
      have htail := ih (i + 1) (fun q hq => hparts q (List.mem_cons_of_mem _ hq)) hlater
      cases part with
      | rest name =>
          cases name with
          | none => exact htail
          | some name => exact (keepsStep_slicePositional ht name _ _).followedBy htail
      | sub q =>
          obtain ⟨hq, hvalid⟩ := hparts q List.mem_cons_self
          rw [placePositional, List.map_cons, PositionalPattern.map, matchPositional]
          cases hj : alignment.valueIndex? i with
          | none =>
              -- no value, and so no place either
              have hplace : bindSlot q.boundName? ((none : Option Nat).map .slot) = [] := by
                cases q.boundName? <;> rfl
              rw [hplace]
              exact htail
          | some j =>
              have hlt : j < t.positional.length := by
                rw [hwf.positional_length]
                exact hvalue 0 (Nat.succ_pos _) j hj
              have hat : t.at? j = some t.positional[j] := by
                rw [hwf.at?_eq, List.getElem?_eq_getElem hlt]
              rw [Option.bind_some, hat]
              have hv := ht.of_mem_positional (List.getElem_mem hlt)
              exact (keepsStep_sub hq hvalid hv (resolves_index hwf hat)).followedBy htail

/-- Parts for fields keep step with the places found for them. -/
theorem keepsStep_matchFields {parts : List (Symbol × FieldPattern Pattern)}
    (hparts : ∀ key q, (key, .sub q) ∈ parts → (q.Simple ∨ nested) ∧ q.validate = .ok ())
    {places : List (Symbol × SlotBinding)} (h : placeFields t.layout parts = .ok places) :
    (matchFields t (parts.map fun x => (x.1, x.2.map Pattern.matchInto))).KeepsStep t nested
      places := by
  have hwf := (Value.wellFormed_tuple_iff.mp ht).1
  induction parts generalizing places with
  | nil =>
      cases h
      exact keepsStep_nothing
  | cons part parts ih =>
      obtain ⟨key, part⟩ := part
      rw [placeFields] at h
      cases hslot : t.layout.slotOf? key with
      | none => simp [hslot] at h
      | some i =>
          cases hmore : placeFields t.layout parts with
          | error failure => simp [hslot, hmore, Except.map] at h
          | ok more =>
              simp only [hslot, hmore, Except.map, Except.ok.injEq] at h
              subst h
              have htail := ih (fun key q hq => hparts key q (List.mem_cons_of_mem _ hq)) hmore
              rw [List.map_cons, matchFields]
              cases hv : t.field? key with
              | none => exact (Matching.failsWith_fail _).ensures
              | some v =>
                  have hplace := resolves_field hwf hslot hv
                  refine Matching.KeepsStep.followedBy ?_ htail
                  cases part with
                  | shorthand => exact keepsStep_bind hplace
                  | sub q =>
                      obtain ⟨hq, hvalid⟩ := hparts key q List.mem_cons_self
                      exact keepsStep_sub hq hvalid (ht.of_field? hv) hplace

end TuplePattern

end TaggedTuple
