import Mathlib.Data.List.TakeWhile
import Mathlib.Tactic.SplitIfs
import TaggedTuple.Pattern.Alignment

/-!
# The positional parts of a tuple pattern

A pattern that passes validation has at most one rest marker (`TuplePattern.SingleRest`), so its
positional parts are the leading sub-patterns, the marker if there is one, and the trailing
sub-patterns (`SingleRest.positional_cases`). `TuplePattern.aligned` pairs them with values: leading
sub-patterns with the first values, trailing ones with the last. The alignment that is computed
from positions and counts exists exactly for the counts that fit (`align_of_countFits`,
`align_of_not_countFits`). Which counts fit depends only on where the markers stand
(`TuplePattern.restFlags`).
-/

namespace TaggedTuple

variable {α π ρ : Type}

namespace PositionalPattern

/-- The sub-pattern, unless the part is the rest marker. -/
def sub? : PositionalPattern π → Option π
  | .sub p => some p
  | .rest _ => none

/-- A sub-pattern is no rest marker. -/
@[simp]
theorem isRest_sub (p : π) : (sub p).isRest = false := rfl

/-- A rest marker is one, named or not. -/
@[simp]
theorem isRest_rest (name : Option Symbol) : (rest name : PositionalPattern π).isRest = true := rfl

/-- Mapping the sub-patterns keeps the rest markers. -/
theorem isRest_map (g : π → ρ) (part : PositionalPattern π) :
    (part.map g).isRest = part.isRest := by
  cases part <;> rfl

/-- Mapping the parts maps their sub-patterns. -/
theorem sub?_map (g : π → ρ) (part : PositionalPattern π) :
    (part.map g).sub? = part.sub?.map g := by
  cases part <;> rfl

/-- Parts without a rest marker are sub-patterns. -/
theorem map_sub_filterMap_sub? {parts : List (PositionalPattern π)}
    (h : ∀ part ∈ parts, part.isRest = false) :
    (parts.filterMap (·.sub?)).map .sub = parts := by
  induction parts with
  | nil => rfl
  | cons part parts ih =>
      rw [List.forall_mem_cons] at h
      cases part with
      | rest name => cases h.1
      | sub p => simpa [sub?] using ih h.2

end PositionalPattern

/-! ### Tag requirements -/

namespace TagRequirement

/-- The tags that a requirement takes: the one that it names, or no tag at all. -/
inductive Takes : TagRequirement → Option Symbol → Prop
  | tag (s : Symbol) : Takes (.tag s) (some s)
  | untagged : Takes .untagged none

variable {requirement : TagRequirement} {found : Option Symbol}

/-- The matcher accepts the tags that the requirement takes. -/
theorem accepts_iff_takes : requirement.accepts found = true ↔ requirement.Takes found := by
  cases requirement with
  | tag s =>
      rw [accepts, beq_iff_eq]
      exact ⟨fun h => h ▸ .tag s, fun h => by cases h; rfl⟩
  | untagged =>
      rw [accepts, Option.isNone_iff_eq_none]
      exact ⟨fun h => h ▸ .untagged, fun h => by cases h; rfl⟩

/-- The tag that the matcher reports as expected is one that the requirement takes. -/
theorem takes_expected (requirement : TagRequirement) : requirement.Takes requirement.expected := by
  cases requirement with
  | tag s => exact .tag s
  | untagged => exact .untagged

/-- A requirement takes no other tag than the one that is reported as expected. -/
theorem Takes.eq_expected (h : requirement.Takes found) : found = requirement.expected := by
  cases h <;> rfl

end TagRequirement

/-! ### Leading and trailing sub-patterns -/

namespace TuplePattern

/-- The sub-patterns before the rest marker, or all of them if there is none. -/
def leading (p : TuplePattern π) : List π :=
  (p.positional.takeWhile fun part => !part.isRest).filterMap (·.sub?)

/-- The sub-patterns behind the rest marker. -/
def trailing (p : TuplePattern π) : List π :=
  (p.positional.dropWhile fun part => !part.isRest).filterMap (·.sub?)

/-- The positional sub-patterns with the values they are to match, from left to right. -/
def aligned (p : TuplePattern π) (values : List α) : List (π × α) :=
  p.leading.zip values ++ p.trailing.zip (values.drop (values.length - p.trailing.length))

/-- Whether there is a rest marker. -/
def hasRest (p : TuplePattern π) : Bool := p.positional.any (·.isRest)

/-- Which of the positional parts are rest markers. -/
def restFlags (p : TuplePattern π) : List Bool := p.positional.map (·.isRest)

/-- There is at most one rest marker. -/
def SingleRest (p : TuplePattern π) : Prop := p.positional.countP (·.isRest) ≤ 1

/-- The tag requirement, if any, is met. -/
def TagFits (p : TuplePattern π) (found : Option Symbol) : Prop :=
  ∀ requirement, p.tag = some requirement → requirement.Takes found

/-- The number of values fits: with a rest marker there may be more of them than sub-patterns. -/
def CountFits (p : TuplePattern π) (count : Nat) : Prop :=
  if p.hasRest then p.fixedCount ≤ count else p.fixedCount = count

/-- Leading sub-patterns take the first values, trailing ones the last, and the rest marker stands
for the values between. -/
def alignment (p : TuplePattern π) (count : Nat) : Alignment where
  before := p.leading.length
  restStart := if p.hasRest then p.leading.length else count
  restStop := count - p.trailing.length

/-- Leading sub-patterns take the first values. -/
theorem valueIndex?_leading {p : TuplePattern π} {count i : Nat} (h : i < p.leading.length) :
    (p.alignment count).valueIndex? i = some i :=
  if_pos h

/-- Trailing sub-patterns take the last values. -/
theorem valueIndex?_trailing (p : TuplePattern π) (count i : Nat) :
    (p.alignment count).valueIndex? (p.leading.length + 1 + i)
      = some (count - p.trailing.length + i) := by
  unfold Alignment.valueIndex? alignment
  rw [if_neg (by dsimp only; omega), if_neg (by dsimp only; omega)]
  congr 2
  dsimp only
  omega

/-- What is aligned is a sub-pattern with one of the values. -/
theorem mem_of_mem_aligned {p : TuplePattern π} {values : List α} {x : π × α}
    (h : x ∈ p.aligned values) : .sub x.1 ∈ p.positional ∧ x.2 ∈ values := by
  have hsub : ∀ {part : PositionalPattern π}, part.sub? = some x.1 → part = .sub x.1 := by
    intro part hpart
    cases part with
    | sub q => exact congrArg PositionalPattern.sub (Option.some.inj hpart)
    | rest name => cases hpart
  rcases List.mem_append.mp h with h | h
  · obtain ⟨hleft, hright⟩ := List.of_mem_zip h
    obtain ⟨part, hmem, hpart⟩ := List.mem_filterMap.mp hleft
    rw [← hsub hpart]
    exact ⟨(List.takeWhile_sublist _).subset hmem, hright⟩
  · obtain ⟨hleft, hright⟩ := List.of_mem_zip h
    obtain ⟨part, hmem, hpart⟩ := List.mem_filterMap.mp hleft
    rw [← hsub hpart]
    exact ⟨(List.dropWhile_sublist _).subset hmem, List.mem_of_mem_drop hright⟩

/-- The unmentioned fields are those of the layout that the pattern does not list. -/
theorem mem_unmentioned_iff {p : TuplePattern π} {l : Layout} {f : Symbol} :
    f ∈ p.unmentioned l ↔ f ∈ l.fields ∧ f ∉ p.fields.map Prod.fst := by
  have hany : (p.fields.any fun x => x.1 == f) = true ↔ f ∈ p.fields.map Prod.fst := by
    simp only [List.any_eq_true, List.mem_map, beq_iff_eq]
  show f ∈ l.fields.filter (fun f => !p.fields.any fun x => x.1 == f) ↔ _
  rw [List.mem_filter, ← hany, Bool.not_eq_true, Bool.not_eq_true']

/-- The check of the tag passes for a tag that fits. -/
theorem checkTag_of_tagFits {p : TuplePattern π} {found : Option Symbol} (h : p.TagFits found) :
    p.checkTag found = .ok () := by
  unfold checkTag
  cases htag : p.tag with
  | none => rfl
  | some requirement => exact if_pos (TagRequirement.accepts_iff_takes.mpr (h requirement htag))

/-- If the tag does not fit, there is a requirement that it does not meet. -/
theorem exists_of_not_tagFits {p : TuplePattern π} {found : Option Symbol} (h : ¬p.TagFits found) :
    ∃ requirement wanted, p.tag = some requirement ∧ requirement.Takes wanted ∧
      ¬requirement.Takes found := by
  obtain ⟨requirement, hrequired, hrejects⟩ : ∃ requirement, p.tag = some requirement ∧
      ¬requirement.Takes found := by simpa only [TagFits, not_forall, exists_prop] using h
  exact ⟨requirement, _, hrequired, requirement.takes_expected, hrejects⟩

/-- A tag requirement that is not met is the mismatch that is reported, with the tag that would
meet it. -/
theorem checkTag_of_not_takes {p : TuplePattern π} {requirement : TagRequirement}
    {wanted found : Option Symbol} (htag : p.tag = some requirement)
    (hwanted : requirement.Takes wanted) (h : ¬requirement.Takes found) :
    p.checkTag found = .error (.tagMismatch wanted found) := by
  unfold checkTag
  rw [htag, hwanted.eq_expected]
  exact if_neg fun haccepts => h (TagRequirement.accepts_iff_takes.mp haccepts)

/-! ### Patterns with their markers in the same places -/

section restFlags

variable {p : TuplePattern π} {q : TuplePattern ρ} (h : p.restFlags = q.restFlags)
include h

/-- The rest markers decide whether there is one. -/
theorem hasRest_eq_of_restFlags : p.hasRest = q.hasRest := by
  simpa [hasRest, restFlags, Function.comp_def] using congrArg (List.any · id) h

/-- The rest markers decide the number of sub-patterns. -/
theorem fixedCount_eq_of_restFlags : p.fixedCount = q.fixedCount := by
  simpa [fixedCount, restFlags, Function.comp_def] using congrArg (List.countP (!·)) h

/-- The rest markers decide where the first one stands. -/
theorem restPosition?_eq_of_restFlags : p.restPosition? = q.restPosition? := by
  simpa [restPosition?, restFlags, Function.comp_def] using congrArg (List.findIdx? id) h

/-- The rest markers decide whether there is at most one. -/
theorem singleRest_iff_of_restFlags : p.SingleRest ↔ q.SingleRest := by
  have hcount := congrArg (List.countP id) h
  simp only [restFlags, List.countP_map] at hcount
  exact Eq.to_iff (congrArg (· ≤ 1) hcount)

/-- The rest markers decide which numbers of values fit. -/
theorem countFits_iff_of_restFlags {count : Nat} : p.CountFits count ↔ q.CountFits count := by
  rw [CountFits, CountFits, hasRest_eq_of_restFlags h, fixedCount_eq_of_restFlags h]

end restFlags

/-! ### Mapping the sub-patterns -/

section map

variable (g : π → ρ) (p : TuplePattern π)

/-- Mapping the sub-patterns maps the leading ones. -/
theorem leading_map : (p.map g).leading = p.leading.map g := by
  simp [leading, map, List.takeWhile_map, List.filterMap_map, List.map_filterMap,
    PositionalPattern.sub?_map, Function.comp_def, PositionalPattern.isRest_map]

/-- Mapping the sub-patterns maps the trailing ones. -/
theorem trailing_map : (p.map g).trailing = p.trailing.map g := by
  simp [trailing, map, List.dropWhile_map, List.filterMap_map, List.map_filterMap,
    PositionalPattern.sub?_map, Function.comp_def, PositionalPattern.isRest_map]

/-- Mapping the sub-patterns leaves the values they are aligned with. -/
theorem aligned_map (values : List α) :
    (p.map g).aligned values = (p.aligned values).map (Prod.map g id) := by
  rw [aligned, leading_map, trailing_map, List.length_map, List.zip_map_left, List.zip_map_left,
    ← List.map_append, ← aligned]

/-- Mapping the sub-patterns keeps the rest markers in place. -/
theorem restFlags_map : (p.map g).restFlags = p.restFlags := by
  simp [restFlags, map, Function.comp_def, PositionalPattern.isRest_map]

/-- Mapping the sub-patterns keeps whether there is a rest marker. -/
theorem hasRest_map : (p.map g).hasRest = p.hasRest :=
  hasRest_eq_of_restFlags (restFlags_map g p)

/-- Mapping the sub-patterns keeps their number. -/
theorem fixedCount_map : (p.map g).fixedCount = p.fixedCount :=
  fixedCount_eq_of_restFlags (restFlags_map g p)

/-- Mapping the sub-patterns keeps the alignment, the failures included. -/
theorem align_map (count : Nat) : (p.map g).align count = p.align count := by
  rw [align, align, restPosition?_eq_of_restFlags (restFlags_map g p), fixedCount_map]

/-- Mapping the sub-patterns keeps whether there is at most one rest marker. -/
theorem singleRest_map : (p.map g).SingleRest ↔ p.SingleRest :=
  singleRest_iff_of_restFlags (restFlags_map g p)

/-- Mapping the sub-patterns keeps which numbers of values fit. -/
theorem countFits_map {count : Nat} : (p.map g).CountFits count ↔ p.CountFits count :=
  countFits_iff_of_restFlags (restFlags_map g p)

/-- Mapping the sub-patterns keeps the tag requirement. -/
theorem tagFits_map {found : Option Symbol} : (p.map g).TagFits found ↔ p.TagFits found := Iff.rfl

/-- Mapping the sub-patterns keeps where the values go. -/
theorem alignment_map (count : Nat) : (p.map g).alignment count = p.alignment count := by
  rw [alignment, alignment, hasRest_map, leading_map, trailing_map, List.length_map,
    List.length_map]

/-- Mapping the sub-patterns keeps the fields that are unmentioned. -/
theorem unmentioned_map (l : Layout) : (p.map g).unmentioned l = p.unmentioned l := by
  simp [unmentioned, map, List.any_map, Function.comp_def]

/-- The positional sub-patterns of a mapped pattern are images. -/
theorem sub_mem_positional_map_iff {x : ρ} :
    .sub x ∈ (p.map g).positional ↔ ∃ q, .sub q ∈ p.positional ∧ g q = x := by
  constructor
  · intro h
    obtain ⟨part, hmem, hpart⟩ := List.mem_map.mp h
    cases part with
    | sub q => exact ⟨q, hmem, PositionalPattern.sub.inj hpart⟩
    | rest name => cases hpart
  · rintro ⟨q, hmem, rfl⟩
    exact List.mem_map.mpr ⟨.sub q, hmem, rfl⟩

/-- The sub-patterns for fields of a mapped pattern are images. -/
theorem sub_mem_fields_map_iff {key : Symbol} {x : ρ} :
    (key, .sub x) ∈ (p.map g).fields ↔ ∃ q, (key, .sub q) ∈ p.fields ∧ g q = x := by
  constructor
  · intro h
    obtain ⟨⟨key', part⟩, hmem, hpart⟩ := List.mem_map.mp h
    cases part with
    | shorthand => cases hpart
    | sub q =>
        cases hpart
        exact ⟨q, hmem, rfl⟩
  · rintro ⟨q, hmem, rfl⟩
    exact List.mem_map.mpr ⟨(key, .sub q), hmem, rfl⟩

end map

/-! ### The parts of a pattern with at most one marker -/

section parts

variable {p : TuplePattern π}

/-- The two forms of the positional parts. -/
theorem SingleRest.positional_cases (h : p.SingleRest) :
    (p.hasRest = false ∧ p.positional = p.leading.map .sub ∧ p.trailing = []) ∨
    (p.hasRest = true ∧ ∃ name,
      p.positional = p.leading.map .sub ++ .rest name :: p.trailing.map .sub) := by
  have hleading : p.leading.map .sub = p.positional.takeWhile fun part => !part.isRest := by
    refine PositionalPattern.map_sub_filterMap_sub? fun part hpart => ?_
    simpa using List.mem_takeWhile_imp hpart
  have hsplit : p.positional = p.leading.map .sub
      ++ p.positional.dropWhile fun part => !part.isRest := by
    rw [hleading, List.takeWhile_append_dropWhile]
  cases hdrop : p.positional.dropWhile fun part => !part.isRest with
  | nil =>
      rw [hdrop, List.append_nil] at hsplit
      refine .inl ⟨?_, hsplit, by rw [trailing, hdrop]; rfl⟩
      rw [hasRest, hsplit]
      simp
  | cons part later =>
      rw [hdrop] at hsplit
      have hpart : part.isRest = true := by
        have hhead := List.head?_dropWhile_not (fun part => !part.isRest) p.positional
        rw [hdrop] at hhead
        simpa using hhead
      obtain ⟨name, rfl⟩ : ∃ name, part = .rest name := by
        cases part with
        | sub q => cases hpart
        | rest name => exact ⟨name, rfl⟩
      have hlater : ∀ part ∈ later, part.isRest = false := by
        have hcount : p.positional.countP (·.isRest) ≤ 1 := h
        rw [hsplit, List.countP_append, List.countP_cons_of_pos hpart] at hcount
        have hzero : later.countP PositionalPattern.isRest = 0 := by omega
        simpa only [List.countP_eq_zero, Bool.not_eq_true] using hzero
      have htrailing : p.trailing.map .sub = later := by
        rw [trailing, hdrop]
        exact PositionalPattern.map_sub_filterMap_sub? hlater
      refine .inr ⟨?_, name, by rw [htrailing]; exact hsplit⟩
      rw [hasRest, hsplit]
      simp

/-- With one rest marker at most, every sub-pattern is leading or trailing. -/
theorem SingleRest.fixedCount_eq (h : p.SingleRest) :
    p.fixedCount = p.leading.length + p.trailing.length := by
  unfold fixedCount
  rcases h.positional_cases with ⟨-, hparts, htrailing⟩ | ⟨-, name, hparts⟩
  · rw [hparts, htrailing]
    simp [List.countP_map, Function.comp_def]
  · rw [hparts]
    simp [List.countP_append, List.countP_map, Function.comp_def]

/-- With one rest marker at most, a number that fits covers all sub-patterns. -/
theorem SingleRest.length_le (h : p.SingleRest) {count : Nat} (hcount : p.CountFits count) :
    p.leading.length + p.trailing.length ≤ count := by
  rw [← h.fixedCount_eq]
  unfold CountFits at hcount
  split_ifs at hcount with hrest
  · exact hcount
  · exact Nat.le_of_eq hcount

/-- With one rest marker at most, it stands behind the leading sub-patterns. -/
theorem SingleRest.restPosition?_eq (h : p.SingleRest) :
    p.restPosition? = if p.hasRest then some p.leading.length else none := by
  unfold restPosition?
  rcases h.positional_cases with ⟨hrest, hparts, -⟩ | ⟨hrest, name, hparts⟩
  · rw [hrest, if_neg Bool.false_ne_true, hparts]
    simp [List.findIdx?_eq_none_iff]
  · have hleading : (p.leading.map PositionalPattern.sub).findIdx? (·.isRest) = none := by
      simp [List.findIdx?_eq_none_iff]
    rw [hrest, if_pos rfl, hparts, List.findIdx?_append, hleading]
    simp [List.findIdx?_cons]

/-- A number of values that fits is aligned. -/
theorem align_of_countFits (h : p.SingleRest) {count : Nat} (hcount : p.CountFits count) :
    p.align count = .ok (p.alignment count) := by
  have hfixed := h.fixedCount_eq
  unfold align alignment
  rw [h.restPosition?_eq]
  unfold CountFits at hcount
  rcases h.positional_cases with ⟨hrest, -, htrailing⟩ | ⟨hrest, -⟩
  · simp only [hrest, Bool.false_eq_true, if_false] at hcount ⊢
    rw [if_pos hcount, hcount]
    rw [htrailing, List.length_nil] at hfixed ⊢
    rw [← hfixed.symm.trans hcount]
    rfl
  · simp only [hrest, if_true] at hcount ⊢
    rw [if_pos hcount]
    have hstop : p.leading.length + (count - p.fixedCount) = count - p.trailing.length := by omega
    rw [hstop]

/-- Positional parts are aligned with values that are there. -/
theorem SingleRest.valueIndex?_lt (h : p.SingleRest) {count : Nat} (hcount : p.CountFits count)
    {i j : Nat} (hi : i < p.positional.length)
    (hj : (p.alignment count).valueIndex? i = some j) : j < count := by
  have hle := h.length_le hcount
  have hlength : p.positional.length ≤ p.leading.length + 1 + p.trailing.length := by
    rcases h.positional_cases with ⟨-, hparts, -⟩ | ⟨-, name, hparts⟩
    · rw [hparts, List.length_map]
      omega
    · rw [hparts, List.length_append, List.length_map, List.length_cons, List.length_map]
      omega
  unfold Alignment.valueIndex? alignment at hj
  dsimp only at hj
  split_ifs at hj
  · have hij := Option.some.inj hj
    omega
  · have hij := Option.some.inj hj
    omega

/-- A number of values that does not fit is the mismatch that is reported. -/
theorem align_of_not_countFits (h : p.SingleRest) {count : Nat} (hcount : ¬p.CountFits count) :
    p.align count = .error (.arityMismatch p.fixedCount count p.hasRest) := by
  unfold align
  rw [h.restPosition?_eq]
  unfold CountFits at hcount
  cases hrest : p.hasRest with
  | false =>
      simp only [hrest, Bool.false_eq_true, if_false] at hcount ⊢
      rw [if_neg hcount]
  | true =>
      simp only [hrest, if_true] at hcount ⊢
      rw [if_neg hcount]

end parts

end TuplePattern

end TaggedTuple
