import TaggedTuple.Proofs.Pattern.Bindings
import TaggedTuple.Proofs.Pattern.Names
import TaggedTuple.Proofs.Tuple.Representation

/-!
# The order of the parts for fields

`Pattern.Reordered` relates patterns that differ in the order of their parts for fields only, at any
depth. The parts are tried one after the other and may bind names on the way, so the order decides
which failure is reported and which of two binders of one name wins. It decides nothing else: the
same values fit (`Pattern.Reordered.fits_iff`), the same names are bound
(`Pattern.Reordered.boundNames_perm`), and each occurrence of a name takes its value from the same
place in both patterns (`Pattern.Reordered.alikeSources`). So patterns that bind no name twice give
the same bindings, up to equality of the captured rests
(`TuplePattern.match_ignores_order_of_fields`).

All of this goes by one induction on the sub-patterns (`Pattern.Reordered.induction`).
-/

namespace TaggedTuple

variable {α π ρ : Type}

/-! ### Reordering the outermost parts -/

/-- The parts are of one kind, with related sub-patterns or the same name for the rest. -/
inductive PositionalPattern.Rel (r : π → ρ → Prop) :
    PositionalPattern π → PositionalPattern ρ → Prop
  | sub {p : π} {q : ρ} (h : r p q) : Rel r (.sub p) (.sub q)
  | rest (name : Option Symbol) : Rel r (.rest name) (.rest name)

/-- The parts are for one field and of one kind, with related sub-patterns. -/
inductive FieldPattern.Rel (r : π → ρ → Prop) :
    Symbol × FieldPattern π → Symbol × FieldPattern ρ → Prop
  | shorthand (key : Symbol) : Rel r (key, .shorthand) (key, .shorthand)
  | sub (key : Symbol) {p : π} {q : ρ} (h : r p q) : Rel r (key, .sub p) (key, .sub q)

/-- Related parts are rest markers or not together. -/
theorem PositionalPattern.Rel.isRest_eq {r : π → ρ → Prop} {part : PositionalPattern π}
    {part' : PositionalPattern ρ} (h : Rel r part part') : part.isRest = part'.isRest := by
  cases h <;> rfl

/-- Related parts have related sub-patterns. -/
theorem PositionalPattern.rel_sub? {r : π → ρ → Prop} ⦃part : PositionalPattern π⦄
    ⦃part' : PositionalPattern ρ⦄ (h : Rel r part part') : Option.Rel r part.sub? part'.sub? := by
  cases h with
  | sub h => exact .some h
  | rest name => exact .none

/-- Related parts are for the same field. -/
theorem FieldPattern.Rel.key_eq {r : π → ρ → Prop} {x : Symbol × FieldPattern π}
    {y : Symbol × FieldPattern ρ} (h : Rel r x y) : x.1 = y.1 := by
  cases h <;> rfl

namespace TuplePattern

/-- The patterns have related parts, those for fields in any order. -/
structure ReorderedBy (r : π → ρ → Prop) (p : TuplePattern π) (q : TuplePattern ρ) : Prop where
  tag_eq : p.tag = q.tag
  positional : List.Forall₂ (PositionalPattern.Rel r) p.positional q.positional
  fields : ∃ permuted, List.Forall₂ (FieldPattern.Rel r) p.fields permuted ∧
    permuted.Perm q.fields
  namedRest_eq : p.namedRest = q.namedRest

/-- Sub-patterns that are related to themselves stay where they are. -/
theorem reorderedBy_of_perm {r : π → π → Prop} {p : TuplePattern π}
    (hpositional : ∀ q, .sub q ∈ p.positional → r q q)
    (hfields : ∀ key q, (key, .sub q) ∈ p.fields → r q q)
    {fields' : List (Symbol × FieldPattern π)} (h : p.fields.Perm fields') :
    p.ReorderedBy r { p with fields := fields' } := by
  refine ⟨rfl, List.forall₂_same.mpr ?_, ⟨p.fields, List.forall₂_same.mpr ?_, h⟩, rfl⟩
  · rintro (q | name) hmem
    · exact .sub (hpositional q hmem)
    · exact .rest name
  · rintro ⟨key, _ | q⟩ hmem
    · exact .shorthand key
    · exact .sub key (hfields key q hmem)

namespace ReorderedBy

variable {r : π → ρ → Prop} {p : TuplePattern π} {q : TuplePattern ρ} (h : p.ReorderedBy r q)
include h

/-- Reordered patterns take the same tags. -/
theorem tagFits_iff {found : Option Symbol} : p.TagFits found ↔ q.TagFits found := by
  rw [TagFits, TagFits, h.tag_eq]

/-- Reordered patterns have their rest markers in the same places. -/
theorem restFlags_eq : p.restFlags = q.restFlags :=
  map_eq_map_of_forall₂ h.positional fun _ _ _ _ hpart => hpart.isRest_eq

/-- Related sub-patterns are aligned with the same values. -/
theorem aligned (values : List α) :
    List.Forall₂ (fun x y => r x.1 y.1 ∧ x.2 = y.2) (p.aligned values) (q.aligned values) := by
  have hrest : ∀ part part', PositionalPattern.Rel r part part' →
      (!part.isRest) = (!part'.isRest) := fun _ _ hpart => congrArg (!·) hpart.isRest_eq
  have hleading : List.Forall₂ r p.leading q.leading :=
    List.rel_filterMap PositionalPattern.rel_sub? (forall₂_takeWhile h.positional hrest)
  have htrailing : List.Forall₂ r p.trailing q.trailing :=
    List.rel_filterMap PositionalPattern.rel_sub? (forall₂_dropWhile h.positional hrest)
  rw [TuplePattern.aligned, TuplePattern.aligned, htrailing.length_eq]
  exact List.rel_append (forall₂_zip_left hleading _) (forall₂_zip_left htrailing _)

/-- What holds of all sub-patterns for positional members holds of their partners. -/
theorem forall_positional_iff {P : π → Prop} {Q : ρ → Prop} (hPQ : ∀ x y, r x y → (P x ↔ Q y)) :
    (∀ x, .sub x ∈ p.positional → P x) ↔ ∀ y, .sub y ∈ q.positional → Q y := by
  have hparts : (∀ part ∈ p.positional, ∀ x, part = .sub x → P x) ↔
      ∀ part ∈ q.positional, ∀ y, part = .sub y → Q y := by
    refine forall_mem_iff_of_forall₂ h.positional ?_
    rintro _ _ (hxy | name)
    · simpa using hPQ _ _ hxy
    · simp
  constructor
  · intro hP y hy
    exact hparts.mp (fun part hpart x hx => hP x (hx ▸ hpart)) _ hy y rfl
  · intro hQ x hx
    exact hparts.mpr (fun part hpart y hy => hQ y (hy ▸ hpart)) _ hx x rfl

/-- What holds of all parts for fields holds of their partners. -/
theorem forall_fields_iff {P : Symbol × FieldPattern π → Prop}
    {Q : Symbol × FieldPattern ρ → Prop} (hPQ : ∀ x y, FieldPattern.Rel r x y → (P x ↔ Q y)) :
    (∀ x ∈ p.fields, P x) ↔ ∀ y ∈ q.fields, Q y := by
  obtain ⟨permuted, hfields, hperm⟩ := h.fields
  rw [forall_mem_iff_of_forall₂ hfields hPQ]
  exact forall_congr' fun y => imp_congr hperm.mem_iff Iff.rfl

/-- What holds of all sub-patterns for fields holds of their partners. -/
theorem forall_fields_sub_iff {P : π → Prop} {Q : ρ → Prop} (hPQ : ∀ x y, r x y → (P x ↔ Q y)) :
    (∀ key x, (key, .sub x) ∈ p.fields → P x) ↔ ∀ key y, (key, .sub y) ∈ q.fields → Q y := by
  have hparts : (∀ part ∈ p.fields, ∀ x, part.2 = .sub x → P x) ↔
      ∀ part ∈ q.fields, ∀ y, part.2 = .sub y → Q y := by
    refine h.forall_fields_iff ?_
    rintro _ _ (key | ⟨key, hxy⟩)
    · simp
    · simpa using hPQ _ _ hxy
  constructor
  · intro hP key y hy
    exact hparts.mp (fun part hpart x hx => hP part.1 x (hx ▸ hpart)) _ hy y rfl
  · intro hQ key x hx
    exact hparts.mpr (fun part hpart y hy => hQ part.1 y (hy ▸ hpart)) _ hx x rfl

/-- Every part for a field has its counterpart. -/
theorem exists_field {x : Symbol × FieldPattern π} (hx : x ∈ p.fields) :
    ∃ y ∈ q.fields, FieldPattern.Rel r x y := by
  obtain ⟨permuted, hfields, hperm⟩ := h.fields
  obtain ⟨y, hy, hxy⟩ := forall₂_exists_right hfields x hx
  exact ⟨y, hperm.subset hy, hxy⟩

/-- The same fields are mentioned. -/
theorem keys_perm : (p.fields.map Prod.fst).Perm (q.fields.map Prod.fst) := by
  obtain ⟨permuted, hfields, hperm⟩ := h.fields
  have hkeys : p.fields.map Prod.fst = permuted.map Prod.fst :=
    map_eq_map_of_forall₂ hfields fun _ _ _ _ hxy => hxy.key_eq
  rw [hkeys]
  exact hperm.map Prod.fst

end ReorderedBy

end TuplePattern

/-! ### Reordering at every depth -/

namespace Pattern

/-- The patterns differ in the order of the parts for fields only, at any depth. -/
inductive Reordered : Pattern → Pattern → Prop
  | wildcard : Reordered .wildcard .wildcard
  | bind (name : Symbol) : Reordered (.bind name) (.bind name)
  | literal (l : Literal) : Reordered (.literal l) (.literal l)
  | tuple {tag : Option TagRequirement} {positional positional' : List (PositionalPattern Pattern)}
    {fields permuted fields' : List (Symbol × FieldPattern Pattern)} {namedRest : Option Symbol}
    (hpositional : List.Forall₂ (PositionalPattern.Rel Reordered) positional positional')
    (hfields : List.Forall₂ (FieldPattern.Rel Reordered) fields permuted)
    (hperm : permuted.Perm fields') :
    Reordered (.tuple ⟨tag, positional, fields, namedRest⟩)
      (.tuple ⟨tag, positional', fields', namedRest⟩)

/-- What is a reordering of a tuple pattern. -/
theorem reordered_tuple_iff {p : TuplePattern Pattern} {r : Pattern} :
    (tuple p).Reordered r ↔ ∃ q, r = tuple q ∧ p.ReorderedBy Reordered q := by
  constructor
  · rintro (_ | _ | _ | ⟨hpositional, hfields, hperm⟩)
    exact ⟨_, rfl, rfl, hpositional, ⟨_, hfields, hperm⟩, rfl⟩
  · obtain ⟨tag, positional, fields, namedRest⟩ := p
    rintro ⟨⟨tag', positional', fields', namedRest'⟩, rfl, htag, hpositional,
      ⟨permuted, hfields, hperm⟩, hrest⟩
    obtain rfl : tag = tag' := htag
    obtain rfl : namedRest = namedRest' := hrest
    exact .tuple hpositional hfields hperm

namespace Reordered

/-- A pattern is a reordering of itself. -/
theorem refl (p : Pattern) : p.Reordered p := by
  induction p using Pattern.induction with
  | wildcard => exact .wildcard
  | bind name => exact .bind name
  | literal l => exact .literal l
  | tuple p ihPositional ihFields =>
      exact reordered_tuple_iff.mpr
        ⟨p, rfl, TuplePattern.reorderedBy_of_perm ihPositional ihFields (.refl _)⟩

/-- The outermost parts may be put in any order. -/
theorem of_perm {p : TuplePattern Pattern} {fields' : List (Symbol × FieldPattern Pattern)}
    (h : p.fields.Perm fields') :
    (Pattern.tuple p).Reordered (.tuple { p with fields := fields' }) :=
  reordered_tuple_iff.mpr
    ⟨_, rfl, TuplePattern.reorderedBy_of_perm (fun q _ => refl q) (fun _ q _ => refl q) h⟩

/-- What relates tuple patterns whose sub-patterns it relates, up to the order of the fields,
relates all patterns that differ in that order. -/
theorem induction {S : Pattern → Pattern → Prop} (wildcard : S .wildcard .wildcard)
    (bind : ∀ name, S (.bind name) (.bind name)) (literal : ∀ l, S (.literal l) (.literal l))
    (tuple : ∀ p q : TuplePattern Pattern, p.ReorderedBy S q → S (.tuple p) (.tuple q))
    {p q : Pattern} (h : p.Reordered q) : S p q := by
  induction p using Pattern.induction generalizing q with
  | wildcard =>
      cases h
      exact wildcard
  | bind name =>
      cases h
      exact bind name
  | literal l =>
      cases h
      exact literal l
  | tuple p ihPositional ihFields =>
      obtain ⟨q, rfl, htag, hpositional, ⟨permuted, hfields, hperm⟩, hrest⟩ :=
        reordered_tuple_iff.mp h
      refine tuple p q ⟨htag, ?_, ⟨permuted, ?_, hperm⟩, hrest⟩
      · refine forall₂_imp hpositional ?_
        rintro _ hmem _ - (hsub | name)
        · exact .sub (ihPositional _ hmem hsub)
        · exact .rest name
      · refine forall₂_imp hfields ?_
        rintro _ hmem _ - (key | ⟨key, hsub⟩)
        · exact .shorthand key
        · exact .sub key (ihFields key _ hmem hsub)

end Reordered

end Pattern

/-! ### The same values fit -/

namespace TuplePattern.ReorderedBy

open Pattern (FieldFits Fits PositionalFit)

variable {p q : TuplePattern Pattern}

/-- A reordered tuple pattern is valid when its sub-patterns are valid together. -/
theorem validate_iff
    (h : p.ReorderedBy (fun p q => p.validate = .ok () ↔ q.validate = .ok ()) q) :
    p.validate = .ok () ↔ q.validate = .ok () := by
  rw [validate_eq_ok_iff, validate_eq_ok_iff, singleRest_iff_of_restFlags h.restFlags_eq,
    h.forall_positional_iff fun _ _ hxy => hxy, h.forall_fields_sub_iff fun _ _ hxy => hxy]

/-- The same fields fit parts with the same sub-patterns up to fitting. -/
theorem fieldFits_iff {t : Tuple Value} {x y : Symbol × FieldPattern Pattern}
    (h : FieldPattern.Rel (fun p q => ∀ v, Fits p v ↔ Fits q v) x y) :
    FieldFits t x ↔ FieldFits t y := by
  cases h with
  | shorthand key => rfl
  | sub key h => simp [FieldFits, h]

/-- The same values fit reordered tuple patterns. -/
theorem fits_iff (h : p.ReorderedBy (fun p q => ∀ v, Fits p v ↔ Fits q v) q) (v : Value) :
    Fits (.tuple p) v ↔ Fits (.tuple q) v := by
  cases v with
  | int n => exact ⟨nofun, nofun⟩
  | str s => exact ⟨nofun, nofun⟩
  | tuple t =>
      have haligned : (∀ x ∈ p.aligned t.positional, Fits x.1 x.2) ↔
          ∀ y ∈ q.aligned t.positional, Fits y.1 y.2 := by
        refine forall_mem_iff_of_forall₂ (h.aligned t.positional) ?_
        rintro ⟨x, v⟩ ⟨y, _⟩ ⟨hxy, rfl⟩
        exact hxy v
      rw [Pattern.fits_tuple_iff, Pattern.fits_tuple_iff, PositionalFit, PositionalFit,
        h.tagFits_iff, countFits_iff_of_restFlags h.restFlags_eq, haligned,
        h.forall_fields_iff fun _ _ => fieldFits_iff]

end TuplePattern.ReorderedBy

namespace Pattern.Reordered

variable {p q : Pattern} (h : p.Reordered q)
include h

/-- Reordered patterns are valid together. -/
theorem validate_iff : p.validate = .ok () ↔ q.validate = .ok () := by
  refine h.induction (S := fun p q => p.validate = .ok () ↔ q.validate = .ok ()) Iff.rfl
    (fun _ => Iff.rfl) (fun _ => Iff.rfl) fun p q hpq => ?_
  rw [validate_tuple_eq, validate_tuple_eq]
  exact hpq.validate_iff

/-- The same values fit. -/
theorem fits_iff (v : Value) : Fits p v ↔ Fits q v :=
  h.induction (S := fun p q => ∀ v, Fits p v ↔ Fits q v) (fun _ => Iff.rfl)
    (fun _ _ => Iff.rfl) (fun _ _ => Iff.rfl) (fun _ _ hpq => hpq.fits_iff) v

end Pattern.Reordered

/-! ### The same names are bound -/

namespace Pattern

/-- The names of the parts for fields, part by part. -/
theorem fieldNames_eq_flatMap (parts : List (Symbol × FieldPattern Pattern)) :
    fieldNames parts = parts.flatMap fun x => fieldNames [x] := by
  induction parts with
  | nil => rfl
  | cons x parts ih =>
      obtain ⟨key, part⟩ := x
      cases part <;> simp [fieldNames, ih]

/-- Related positional parts bind the same names, up to order. -/
theorem positionalNames_perm {parts parts' : List (PositionalPattern Pattern)}
    (h : List.Forall₂ (PositionalPattern.Rel fun p q => p.boundNames.Perm q.boundNames) parts
      parts') : (positionalNames parts).Perm (positionalNames parts') := by
  induction h with
  | nil => exact .refl _
  | cons hpart _ ih =>
      cases hpart with
      | sub hpq => exact hpq.append ih
      | rest name => exact ih.append_left name.toList

/-- Related parts for fields bind the same names, up to order. -/
theorem fieldNames_perm {parts parts' : List (Symbol × FieldPattern Pattern)}
    (h : List.Forall₂ (FieldPattern.Rel fun p q => p.boundNames.Perm q.boundNames) parts
      parts') : (fieldNames parts).Perm (fieldNames parts') := by
  induction h with
  | nil => exact .refl _
  | cons hpart _ ih =>
      cases hpart with
      | shorthand key => exact ih.cons key
      | sub key hpq => exact hpq.append ih

end Pattern

/-- A reordered tuple pattern binds the same names, up to order. -/
theorem TuplePattern.ReorderedBy.boundNames_perm {p q : TuplePattern Pattern}
    (h : p.ReorderedBy (fun p q => p.boundNames.Perm q.boundNames) q) :
    (Pattern.tuple p).boundNames.Perm (Pattern.tuple q).boundNames := by
  obtain ⟨permuted, hfields, hperm⟩ := h.fields
  have hnames : (Pattern.fieldNames permuted).Perm (Pattern.fieldNames q.fields) := by
    rw [Pattern.fieldNames_eq_flatMap permuted, Pattern.fieldNames_eq_flatMap q.fields]
    exact hperm.flatMap_right _
  rw [Pattern.boundNames_tuple, Pattern.boundNames_tuple, h.namedRest_eq]
  exact (Pattern.positionalNames_perm h.positional).append
    (((Pattern.fieldNames_perm hfields).trans hnames).append_right _)

/-- A reordered pattern binds the same names, up to order. -/
theorem Pattern.Reordered.boundNames_perm {p q : Pattern} (h : p.Reordered q) :
    p.boundNames.Perm q.boundNames :=
  h.induction (S := fun p q => p.boundNames.Perm q.boundNames) (.refl _) (fun _ => .refl _)
    (fun _ => .refl _) fun _ _ hpq => hpq.boundNames_perm

/-! ### The values come from the same places -/

namespace Source

/-- The sources give the same values: they are one source, or captures of the fields of one tuple
that have none of the same keys. -/
inductive Alike : Source → Source → Prop
  | value (v : Value) : Alike (.value v) (.value v)
  | rest (values : List Value) : Alike (.rest values) (.rest values)
  | unmentioned (t : Tuple Value) {keys keys' : List Symbol} (h : ∀ f, f ∈ keys ↔ f ∈ keys') :
    Alike (.unmentioned t keys) (.unmentioned t keys')

/-- Captures of the same members agree, on whatever layouts they were built. -/
theorem Alike.agree {s s' : Source} (h : s.Alike s') {w w' : Value} (hw : w.WellFormed)
    (hgives : s.Gives w) (hgives' : s'.Gives w') : w.Agree w' := by
  cases h with
  | value v =>
      obtain rfl : w = v := hgives
      obtain rfl : w' = w := hgives'
      exact .refl hw
  | rest values =>
      obtain ⟨u, rfl, hu⟩ := hgives
      obtain ⟨u', rfl, hu'⟩ := hgives'
      refine hu.agree hu' (List.forall₂_same.mpr fun v hv => ?_) fun _ => .none
      rw [← hu.positional_eq] at hv
      exact .refl (hw.of_mem_positional hv)
  | @unmentioned t keys keys' hkeys =>
      obtain ⟨u, rfl, hu⟩ := hgives
      obtain ⟨u', rfl, hu'⟩ := hgives'
      refine hu.agree hu' .nil fun f => ?_
      simp only [← hkeys]
      refine optionRel_refl fun v hv => ?_
      rw [← hu.field?_eq] at hv
      exact .refl (hw.of_field? hv)

end Source

/-- Each occurrence of a name on the left has one on the right, with a source that gives the same
values. -/
def SameSources (occurrences occurrences' : List (Symbol × Source)) : Prop :=
  ∀ x ∈ occurrences, ∃ y ∈ occurrences', x.1 = y.1 ∧ x.2.Alike y.2

/-- A source is like itself. -/
theorem Source.Alike.refl (s : Source) : s.Alike s := by
  cases s with
  | value v => exact .value v
  | rest values => exact .rest values
  | unmentioned t keys => exact .unmentioned t fun _ => Iff.rfl

namespace SameSources

variable {a b a' b' : List (Symbol × Source)}

/-- Occurrences have the same sources as themselves. -/
theorem refl (a : List (Symbol × Source)) : SameSources a a :=
  fun x hx => ⟨x, hx, rfl, .refl x.2⟩

/-- The same sources on both sides stay the same when more of both follow. -/
theorem append (h : SameSources a b) (h' : SameSources a' b') :
    SameSources (a ++ a') (b ++ b') := by
  intro x hx
  rcases List.mem_append.mp hx with hx | hx
  · obtain ⟨y, hy, hxy⟩ := h x hx
    exact ⟨y, List.mem_append_left _ hy, hxy⟩
  · obtain ⟨y, hy, hxy⟩ := h' x hx
    exact ⟨y, List.mem_append_right _ hy, hxy⟩

end SameSources

namespace Pattern

/-- The values that patterns bind come from the same places. -/
def AlikeSources (p q : Pattern) : Prop := ∀ v, SameSources (p.occurrences v) (q.occurrences v)

/-- The occurrences in the parts for fields, part by part. -/
theorem fieldOccurrences_eq_flatMap (parts : List (Symbol × FieldPattern Pattern))
    (t : Tuple Value) :
    fieldOccurrences parts t = parts.flatMap fun x => fieldOccurrences [x] t := by
  induction parts with
  | nil => rfl
  | cons x parts ih =>
      obtain ⟨key, part⟩ := x
      cases part with
      | shorthand => simp [fieldOccurrences, ih]
      | sub p => cases hv : t.field? key <;> simp [fieldOccurrences, hv, ih]

/-- Related positional parts have the same sources. -/
theorem sameSources_positional {parts parts' : List (PositionalPattern Pattern)}
    (h : List.Forall₂ (PositionalPattern.Rel AlikeSources) parts parts') (values : List Value) :
    SameSources (positionalOccurrences parts values) (positionalOccurrences parts' values) := by
  induction h generalizing values with
  | nil => exact .refl _
  | @cons part part' parts parts' hpart htail ih =>
      cases hpart with
      | sub hpq =>
          cases values with
          | nil => exact ih []
          | cons v values => exact (hpq v).append (ih values)
      | rest name =>
          rw [positionalOccurrences, positionalOccurrences, htail.length_eq]
          exact (SameSources.refl _).append (ih _)

/-- Related parts for a field have the same sources. -/
theorem sameSources_field {x y : Symbol × FieldPattern Pattern}
    (h : FieldPattern.Rel AlikeSources x y) (t : Tuple Value) :
    SameSources (fieldOccurrences [x] t) (fieldOccurrences [y] t) := by
  cases h with
  | shorthand key => exact .refl _
  | sub key hpq =>
      simp only [fieldOccurrences, List.append_nil]
      cases t.field? key with
      | none => exact .refl _
      | some v => exact hpq v

end Pattern

namespace TuplePattern.ReorderedBy

open Pattern (AlikeSources)

variable {p q : TuplePattern Pattern}

/-- The parts for fields of reordered patterns have the same sources. -/
theorem sameSources_fields (h : p.ReorderedBy AlikeSources q) (t : Tuple Value) :
    SameSources (Pattern.fieldOccurrences p.fields t) (Pattern.fieldOccurrences q.fields t) := by
  rw [Pattern.fieldOccurrences_eq_flatMap p.fields, Pattern.fieldOccurrences_eq_flatMap q.fields]
  intro x hx
  obtain ⟨part, hpart, hx⟩ := List.mem_flatMap.mp hx
  obtain ⟨part', hpart', hrel⟩ := h.exists_field hpart
  obtain ⟨y, hy, hxy⟩ := Pattern.sameSources_field hrel t x hx
  exact ⟨y, List.mem_flatMap.mpr ⟨part', hpart', hy⟩, hxy⟩

/-- Reordered tuple patterns bind from the same sources. -/
theorem alikeSources (h : p.ReorderedBy AlikeSources q) :
    AlikeSources (.tuple p) (.tuple q) := by
  intro v
  cases v with
  | int n => exact .refl _
  | str s => exact .refl _
  | tuple t =>
      rw [Pattern.occurrences_tuple, Pattern.occurrences_tuple, h.namedRest_eq]
      refine (Pattern.sameSources_positional h.positional _).append
        ((h.sameSources_fields t).append ?_)
      rw [SameSources, List.forall_mem_map]
      intro name hname
      exact ⟨_, List.mem_map.mpr ⟨name, hname, rfl⟩, rfl,
        .unmentioned t fun _ => h.keys_perm.mem_iff⟩

end TuplePattern.ReorderedBy

/-- Reordered patterns bind from the same sources. -/
theorem Pattern.Reordered.alikeSources {p q : Pattern} (h : p.Reordered q) : AlikeSources p q :=
  h.induction (S := AlikeSources) (fun _ => .refl _) (fun _ _ => .refl _) (fun _ _ => .refl _)
    fun _ _ hpq => hpq.alikeSources

/-! ### The bindings of a match -/

namespace Pattern

/-- A match of a pattern that binds no name twice binds the names of the pattern, each to a value
from the source of its occurrence. -/
theorem get?_of_matched {p : Pattern} (hp : p.validate = .ok ()) (hnodup : p.boundNames.Nodup)
    {v : Value} (hv : v.WellFormed) {c : LayoutCache} (hc : c.Valid) {b : Bindings Value}
    (h : ((p.matchInto v).outcome c).1 = .ok (.matched b)) :
    (∀ name, (b.get? name).isSome = true ↔ name ∈ (p.occurrences v).map Prod.fst) ∧
      (p.occurrences v).map Prod.fst = p.boundNames ∧
      ∀ x ∈ p.occurrences v, ∃ w, b.get? x.1 = some w ∧ x.2.Gives w := by
  obtain ⟨bound, c', hbound, rfl⟩ := Matching.exists_of_outcome_matched h
  obtain ⟨⟨hnames, hgives⟩, -⟩ := p.binds_matchInto hp hv c bound c' hc hbound
  have hkeys : (p.occurrences v).map Prod.fst = bound.map Prod.fst :=
    (forall₂_pairs_iff.mp hgives).1
  rw [← hnames] at hnodup
  refine ⟨fun name => ?_, hkeys.trans hnames, fun x hx => ?_⟩
  · rw [Bindings.get?, Bindings.entries_ofList hnodup, lookup_isSome_iff_mem_keys, hkeys]
  · obtain ⟨⟨name, w⟩, hmem, rfl, hw⟩ := forall₂_exists_right hgives x hx
    exact ⟨w, (Bindings.get?_ofList_eq_some_iff hnodup).mpr hmem, hw⟩

/-- Where two patterns bind the same names to values from the same places, their bindings agree. -/
theorem get?_rel_of_reordered {p q : Pattern} (h : p.Reordered q) (hp : p.validate = .ok ())
    (hnodup : p.boundNames.Nodup) {v : Value} (hv : v.WellFormed) {c d : LayoutCache}
    (hc : c.Valid) (hd : d.Valid) {b b' : Bindings Value}
    (hb : ((p.matchInto v).outcome c).1 = .ok (.matched b))
    (hb' : ((q.matchInto v).outcome d).1 = .ok (.matched b')) (name : Symbol) :
    ((b.get? name).isSome = true ↔ name ∈ p.boundNames) ∧
      Option.Rel Value.Agree (b.get? name) (b'.get? name) := by
  have hperm := h.boundNames_perm
  obtain ⟨hbound, hnames, hgives⟩ := get?_of_matched hp hnodup hv hc hb
  obtain ⟨hbound', hnames', hgives'⟩ :=
    get?_of_matched (h.validate_iff.mp hp) (hperm.nodup_iff.mp hnodup) hv hd hb'
  refine ⟨by rw [hbound, hnames], ?_⟩
  by_cases hname : name ∈ p.boundNames
  · rw [← hnames] at hname
    obtain ⟨x, hx, rfl⟩ := List.mem_map.mp hname
    obtain ⟨y, hy, hxy, halike⟩ := h.alikeSources v x hx
    obtain ⟨w, hw, hfrom⟩ := hgives x hx
    obtain ⟨w', hw', hfrom'⟩ := hgives' y hy
    have hwf := Tuple.wellFormed_of_matched hv hc (Prod.ext hb rfl) hw
    rw [hw, hxy, hw']
    exact .some (halike.agree hwf hfrom hfrom')
  · have hnone : b.get? name = none := by
      rw [← Option.not_isSome_iff_eq_none, hbound, hnames]
      exact hname
    have hnone' : b'.get? name = none := by
      rw [← Option.not_isSome_iff_eq_none, hbound', hnames', ← hperm.mem_iff]
      exact hname
    rw [hnone, hnone']
    exact .none

end Pattern

namespace TuplePattern

/-- Reordering the parts for fields, at any depth, does not change which tuples a valid pattern
matches. If the pattern binds no name twice, it does not change the bindings either: both patterns
bind the same names, and each of them to equal values. -/
theorem match_ignores_order_of_fields {p q : TuplePattern Pattern} {t : Tuple Value}
    {c d : LayoutCache} (h : (Pattern.tuple p).Reordered (.tuple q)) (hp : p.validate = .ok ())
    (ht : (Value.tuple t).WellFormed) (hc : c.Valid) (hd : d.Valid) :
    q.validate = .ok () ∧
      ((∃ b, (p.matchTuple t c).1 = .ok (.matched b)) ↔
        ∃ b', (q.matchTuple t d).1 = .ok (.matched b')) ∧
      ((Pattern.tuple p).boundNames.Nodup → ∀ b b', (p.matchTuple t c).1 = .ok (.matched b) →
        (q.matchTuple t d).1 = .ok (.matched b') → ∀ name,
          ((b.get? name).isSome = true ↔ name ∈ (Pattern.tuple p).boundNames) ∧
            Option.Rel (fun v w => (v == w) = true) (b.get? name) (b'.get? name)) := by
  have hvalid : (Pattern.tuple p).validate = .ok () := (Pattern.validate_tuple_eq p).trans hp
  have hvalid' := h.validate_iff.mp hvalid
  have hq : q.validate = .ok () := (Pattern.validate_tuple_eq q).symm.trans hvalid'
  rw [matchTuple_eq_outcome hp, matchTuple_eq_outcome hq]
  refine ⟨hq, ?_, fun hnodup b b' hb hb' name => ?_⟩
  · rw [(Pattern.outcome_semantics hvalid ht hc).1, (Pattern.outcome_semantics hvalid' ht hd).1]
    exact h.fits_iff (.tuple t)
  · obtain ⟨hbound, hrel⟩ := Pattern.get?_rel_of_reordered h hvalid hnodup ht hc hd hb hb' name
    exact ⟨hbound, optionRel_imp hrel fun _ _ _ _ hagree => hagree.beq⟩

/-- The pattern `(y: (x: a, y: b), y:, ...o)` mentions a field twice, and so does
`(y:, y: (y: b, x: a), ...o)`. Both capture the field `x`. -/
theorem match_ignores_order_of_fields_of_nested_record :
    let inner : TuplePattern Pattern :=
      { fields := [(⟨1⟩, .sub (.bind ⟨5⟩)), (⟨2⟩, .sub (.bind ⟨6⟩))] }
    let inner' : TuplePattern Pattern :=
      { fields := [(⟨2⟩, .sub (.bind ⟨6⟩)), (⟨1⟩, .sub (.bind ⟨5⟩))] }
    let p : TuplePattern Pattern :=
      { fields := [(⟨2⟩, .sub (.tuple inner)), (⟨2⟩, .shorthand)], namedRest := some ⟨9⟩ }
    let q : TuplePattern Pattern :=
      { fields := [(⟨2⟩, .shorthand), (⟨2⟩, .sub (.tuple inner'))], namedRest := some ⟨9⟩ }
    let pair : Tuple Value := ⟨⟨0, 0, .ascendingPair 0⟩, [], [.int 3, .int 4]⟩
    let t : Tuple Value := ⟨⟨1, 0, .descendingPair 0⟩, [], [.tuple pair, .int 1]⟩
    let cache := LayoutCache.empty 1 true
    ∃ b b', (p.matchTuple t cache).1 = .ok (.matched b) ∧
      (q.matchTuple t cache).1 = .ok (.matched b') ∧
      (∀ name, Option.Rel (fun v w => (v == w) = true) (b.get? name) (b'.get? name)) ∧
      ∀ name ∈ [⟨5⟩, ⟨6⟩, ⟨2⟩, ⟨9⟩], (b.get? name).isSome = true := by
  intro inner inner' p q pair t cache
  have hinner : (Pattern.tuple inner).Reordered (.tuple inner') :=
    .of_perm (List.Perm.swap _ _ [])
  have h : (Pattern.tuple p).Reordered (.tuple q) :=
    .tuple .nil (.cons (.sub _ hinner) (.cons (.shorthand _) .nil)) (.swap _ _ _)
  have ht : (Value.tuple t).WellFormed := by
    simp [t, pair, Value.wellFormed_tuple_iff, Value.WellFormed.int, Tuple.members,
      Tuple.wellFormed_iff, Tuple.layout, Layout.ascendingPair, Layout.descendingPair]
  have hc : cache.Valid := LayoutCache.valid_empty 1 true
  obtain ⟨-, hmatched, hbindings⟩ := match_ignores_order_of_fields h rfl ht hc hc
  obtain ⟨b, hb⟩ : ∃ b, (p.matchTuple t cache).1 = .ok (.matched b) :=
    ⟨_, by with_unfolding_all rfl⟩
  obtain ⟨b', hb'⟩ := hmatched.mp ⟨b, hb⟩
  have hsame := hbindings (by decide) b b' hb hb'
  exact ⟨b, b', hb, hb', fun name => (hsame name).2, fun name hname => (hsame name).1.mpr hname⟩

end TuplePattern

end TaggedTuple
