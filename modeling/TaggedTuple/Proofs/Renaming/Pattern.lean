import TaggedTuple.Pattern.Alignment
import TaggedTuple.Proofs.Pattern.Validity
import TaggedTuple.Proofs.Renaming.Tuple

/-!
# Renaming the symbols of a pattern

A pattern is renamed at every depth: tags, fields and the names that it binds. How it lines up with
a layout does not depend on the numbers of these symbols (`TuplePattern.checkTag_rename`,
`TuplePattern.align_rename`, `TuplePattern.unmentioned_rename`), and neither does its validity
(`TuplePattern.validate_rename`).

As for tuples, the sub-patterns are renamed by a function that is left open as long as only the
outer shape matters.
-/

namespace TaggedTuple

variable {π ρ σ : Type} (r : Symbol ↪ Symbol)

/-- Renaming keeps which symbols are equal. -/
@[simp]
theorem Symbol.beq_rename (s s' : Symbol) : (r s == r s') = (s == s') := by
  rw [Bool.eq_iff_iff, beq_iff_eq, beq_iff_eq, r.injective.eq_iff]

/-- The failure with renamed tags and fields. -/
def MatchFailure.rename : MatchFailure → MatchFailure
  | .arityMismatch expected found hasRest => .arityMismatch expected found hasRest
  | .tagMismatch expected found => .tagMismatch (expected.map r) (found.map r)
  | .missingField f => .missingField (r f)
  | .notATuple => .notATuple
  | .literalMismatch => .literalMismatch

/-- The error with renamed fields. -/
def PatternError.rename : PatternError → PatternError
  | .multipleRest first second => .multipleRest first second
  | .capture inner => .capture (inner.rename r)

/-! ### Parts of tuple patterns -/

namespace TagRequirement

/-- The requirement of a renamed tag. -/
def rename : TagRequirement → TagRequirement
  | .tag s => .tag (r s)
  | .untagged => .untagged

/-- A renamed requirement accepts the renamed tags. -/
theorem accepts_rename (requirement : TagRequirement) (found : Option Symbol) :
    (requirement.rename r).accepts (found.map r) = requirement.accepts found := by
  cases requirement with
  | untagged => simp [rename, accepts]
  | tag s =>
      rw [Bool.eq_iff_iff]
      simp [rename, accepts]

/-- A renamed requirement expects the renamed tag. -/
theorem expected_rename (requirement : TagRequirement) :
    (requirement.rename r).expected = requirement.expected.map r := by
  cases requirement <;> rfl

end TagRequirement

namespace PositionalPattern

/-- The part with a renamed rest marker, its sub-pattern mapped by a function. -/
def rename (g : π → ρ) : PositionalPattern π → PositionalPattern ρ
  | .sub p => .sub (g p)
  | .rest name => .rest (name.map r)

/-- Renaming keeps the rest markers. -/
@[simp]
theorem isRest_rename (g : π → ρ) (part : PositionalPattern π) :
    (part.rename r g).isRest = part.isRest := by
  cases part <;> rfl

end PositionalPattern

namespace TuplePattern

/-- The tuple pattern with renamed tag, fields and names, its sub-patterns mapped by a function. -/
def rename (g : π → ρ) (p : TuplePattern π) : TuplePattern ρ :=
  { tag := p.tag.map (.rename r), positional := p.positional.map (.rename r g),
    fields := p.fields.map (Prod.map r (.map g)), namedRest := p.namedRest.map r }

variable (g : π → ρ) (p : TuplePattern π)

/-- Sub-patterns may be mapped behind a renaming. -/
theorem map_rename (h : ρ → σ) : (p.rename r g).map h = p.rename r fun q => h (g q) := by
  have hpositional : ∀ part : PositionalPattern π,
      (part.rename r g).map h = part.rename r fun q => h (g q) := by
    intro part
    cases part <;> rfl
  have hfield : ∀ part : FieldPattern π, (part.map g).map h = part.map fun q => h (g q) := by
    intro part
    cases part <;> rfl
  simp [rename, map, hpositional, hfield]

/-! ### Alignment -/

/-- The check of a renamed tag is the renamed check. -/
theorem checkTag_rename (found : Option Symbol) :
    (p.rename r g).checkTag (found.map r)
      = renameResult (.rename r) id (p.checkTag found) := by
  unfold checkTag rename
  cases p.tag with
  | none => rfl
  | some requirement =>
      simp only [Option.map_some, TagRequirement.accepts_rename, TagRequirement.expected_rename]
      split_ifs
      · rfl
      · rfl

/-- Renaming keeps the rest markers in place. -/
theorem restFlags_rename : (p.rename r g).restFlags = p.restFlags := by
  simp [restFlags, rename, Function.comp_def]

/-- Renaming keeps the alignment. -/
theorem align_rename (count : Nat) :
    (p.rename r g).align count = renameResult (.rename r) id (p.align count) := by
  unfold align
  rw [restPosition?_eq_of_restFlags (restFlags_rename r g p),
    fixedCount_eq_of_restFlags (restFlags_rename r g p)]
  cases p.restPosition? with
  | none =>
      dsimp only
      split_ifs
      · rfl
      · rfl
  | some before =>
      dsimp only
      split_ifs
      · rfl
      · rfl

/-- The unmentioned fields of a renamed layout are renamed ones. -/
theorem unmentioned_rename (l : Layout) :
    (p.rename r g).unmentioned (l.rename r) = (p.unmentioned l).map r := by
  have hmentioned : ∀ f, (p.rename r g).fields.any (fun x => x.1 == r f)
      = p.fields.any fun x => x.1 == f := by
    intro f
    simp [rename, Function.comp_def]
  unfold unmentioned
  rw [Layout.fields_rename, List.filter_map]
  congr 1
  apply List.filter_congr
  intro f _
  exact congrArg (!·) (hmentioned f)

end TuplePattern

/-! ### Patterns -/

namespace Pattern

mutual

/-- The pattern with all symbols renamed, at every depth. -/
def rename (r : Symbol ↪ Symbol) : Pattern → Pattern
  | .wildcard => .wildcard
  | .bind name => .bind (r name)
  | .literal l => .literal l
  | .tuple p => .tuple (renameMembers r p)

/-- The tuple pattern with all symbols renamed, those of its sub-patterns included. -/
def renameMembers (r : Symbol ↪ Symbol) : TuplePattern Pattern → TuplePattern Pattern
  | ⟨tag, positional, fields, namedRest⟩ =>
    ⟨tag.map (.rename r), renameEachPositional r positional, renameEachField r fields,
      namedRest.map r⟩

/-- The positional parts with all symbols renamed. -/
def renameEachPositional (r : Symbol ↪ Symbol) :
    List (PositionalPattern Pattern) → List (PositionalPattern Pattern)
  | [] => []
  | .sub p :: rest => .sub (p.rename r) :: renameEachPositional r rest
  | .rest name :: rest => .rest (name.map r) :: renameEachPositional r rest

/-- The parts for fields with all symbols renamed. -/
def renameEachField (r : Symbol ↪ Symbol) :
    List (Symbol × FieldPattern Pattern) → List (Symbol × FieldPattern Pattern)
  | [] => []
  | (key, .shorthand) :: rest => (r key, .shorthand) :: renameEachField r rest
  | (key, .sub p) :: rest => (r key, .sub (p.rename r)) :: renameEachField r rest

end

/-- Renaming positional parts, as a map. -/
theorem renameEachPositional_eq_map (parts : List (PositionalPattern Pattern)) :
    renameEachPositional r parts = parts.map (.rename r (rename r)) := by
  induction parts with
  | nil => rfl
  | cons part rest ih =>
      cases part <;> rw [renameEachPositional, ih, List.map_cons] <;> rfl

/-- Renaming parts for fields, as a map. -/
theorem renameEachField_eq_map (parts : List (Symbol × FieldPattern Pattern)) :
    renameEachField r parts = parts.map (Prod.map r (.map (rename r))) := by
  induction parts with
  | nil => rfl
  | cons part rest ih =>
      obtain ⟨key, part⟩ := part
      cases part <;> rw [renameEachField, ih, List.map_cons] <;> rfl

/-- A wildcard has nothing to rename. -/
@[simp]
theorem rename_wildcard : rename r .wildcard = .wildcard := by rw [rename]

/-- A binder has its name renamed. -/
@[simp]
theorem rename_bind (name : Symbol) : rename r (.bind name) = .bind (r name) := by rw [rename]

/-- A literal has nothing to rename. -/
@[simp]
theorem rename_literal (l : Literal) : rename r (.literal l) = .literal l := by rw [rename]

/-- A tuple pattern is renamed part by part. -/
@[simp]
theorem rename_tuple (p : TuplePattern Pattern) :
    rename r (.tuple p) = .tuple (p.rename r (rename r)) := by
  obtain ⟨tag, positional, fields, namedRest⟩ := p
  rw [rename, renameMembers, renameEachPositional_eq_map, renameEachField_eq_map]
  rfl

end Pattern

/-! ### Validity -/

namespace TuplePattern

variable {g h : π → Except PatternError Unit}

/-- Renamed positional parts are validated as the parts are. -/
theorem validatePositional_rename {parts : List (PositionalPattern π)}
    (hparts : ∀ q, .sub q ∈ parts → g q = renameResult (.rename r) id (h q)) (first : Option Nat)
    (i : Nat) :
    validatePositional first i (parts.map (.rename r g))
      = renameResult (.rename r) id (validatePositional first i (parts.map (.map h))) := by
  induction parts generalizing first i with
  | nil => rfl
  | cons part parts ih =>
      have htail := ih fun q hq => hparts q (List.mem_cons_of_mem _ hq)
      cases part with
      | rest name =>
          cases first with
          | none => exact htail (some i) (i + 1)
          | some first => rfl
      | sub q =>
          simp only [List.map_cons, PositionalPattern.rename, PositionalPattern.map,
            validatePositional, hparts q List.mem_cons_self]
          apply renameResult_bind
          intro _
          exact htail first (i + 1)

/-- Renamed parts for fields are validated as the parts are. -/
theorem validateFields_rename {parts : List (Symbol × FieldPattern π)}
    (hparts : ∀ key q, (key, .sub q) ∈ parts → g q = renameResult (.rename r) id (h q)) :
    validateFields (parts.map (Prod.map r (.map g)))
      = renameResult (.rename r) id
        (validateFields (parts.map fun (key, part) => (key, part.map h))) := by
  induction parts with
  | nil => rfl
  | cons part parts ih =>
      have htail := ih fun key q hq => hparts key q (List.mem_cons_of_mem _ hq)
      obtain ⟨key, part⟩ := part
      cases part with
      | shorthand => exact htail
      | sub q =>
          simp only [List.map_cons, Prod.map_apply, FieldPattern.map, validateFields,
            hparts key q List.mem_cons_self]
          apply renameResult_bind
          intro _
          exact htail

/-- Which error a tuple pattern has, if any, depends on its sub-patterns and on where they stand. -/
theorem validateParts_rename {p : TuplePattern π}
    (hpositional : ∀ q, .sub q ∈ p.positional → g q = renameResult (.rename r) id (h q))
    (hfields : ∀ key q, (key, .sub q) ∈ p.fields → g q = renameResult (.rename r) id (h q)) :
    (p.rename r g).validateParts = renameResult (.rename r) id (p.map h).validateParts := by
  unfold validateParts rename map
  dsimp only
  rw [validatePositional_rename r hpositional, validateFields_rename r hfields]
  apply renameResult_bind
  intro _
  rfl

end TuplePattern

/-- A renamed pattern is validated as the pattern is. -/
theorem Pattern.validate_rename (p : Pattern) :
    (p.rename r).validate = renameResult (.rename r) id p.validate := by
  induction p using Pattern.induction with
  | wildcard => simp [validate]
  | bind name => simp [validate]
  | literal l => simp [validate]
  | tuple p ihPositional ihFields =>
      rw [rename_tuple, validate_tuple, validate_tuple, TuplePattern.map_rename]
      exact TuplePattern.validateParts_rename r ihPositional ihFields

/-- A pattern is as valid as before, and has the renamed error if it is not. -/
theorem TuplePattern.validate_rename (p : TuplePattern Pattern) :
    (p.rename r (.rename r)).validate = renameResult (.rename r) id p.validate := by
  rw [← Pattern.validate_tuple_eq, ← Pattern.validate_tuple_eq, ← Pattern.rename_tuple,
    Pattern.validate_rename]

end TaggedTuple
