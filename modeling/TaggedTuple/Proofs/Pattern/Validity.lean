import TaggedTuple.Proofs.Pattern.Parts

/-!
# What validation checks

Validation of a pattern goes through all tuple patterns in it; it succeeds exactly when each of them
has at most one rest marker (`TuplePattern.validate_eq_ok_iff`). `Pattern.induction` is induction on
the sub-patterns of a pattern.
-/

set_option linter.unusedSectionVars false

namespace TaggedTuple

namespace Pattern

section induction

variable {motive : Pattern → Prop} (wildcard : motive .wildcard)
  (bind : ∀ name, motive (.bind name)) (literal : ∀ l, motive (.literal l))
  (tuple : ∀ p : TuplePattern Pattern, (∀ q, .sub q ∈ p.positional → motive q) →
    (∀ key q, (key, .sub q) ∈ p.fields → motive q) → motive (.tuple p))

include wildcard bind literal tuple

mutual

/-- What holds of a tuple pattern when it holds of its sub-patterns holds of all patterns. -/
theorem induction : ∀ p : Pattern, motive p
  | .wildcard => wildcard
  | .bind name => bind name
  | .literal l => literal l
  | .tuple ⟨tag, positional, fields, namedRest⟩ =>
    tuple ⟨tag, positional, fields, namedRest⟩ (inductionPositional positional)
      (inductionFields fields)

/-- The part of the induction that goes over positional parts. -/
theorem inductionPositional :
    ∀ parts : List (PositionalPattern Pattern), ∀ q, .sub q ∈ parts → motive q
  | [], _, h => absurd h List.not_mem_nil
  | .sub p :: parts, q, h => by
    rcases List.mem_cons.mp h with heq | h
    · cases heq
      exact induction p
    · exact inductionPositional parts q h
  | .rest _ :: parts, q, h => by
    rcases List.mem_cons.mp h with heq | h
    · cases heq
    · exact inductionPositional parts q h

/-- The part of the induction that goes over parts for fields. -/
theorem inductionFields :
    ∀ parts : List (Symbol × FieldPattern Pattern), ∀ key q, (key, .sub q) ∈ parts → motive q
  | [], _, _, h => absurd h List.not_mem_nil
  | (_, .sub p) :: parts, key, q, h => by
    rcases List.mem_cons.mp h with heq | h
    · cases heq
      exact induction p
    · exact inductionFields parts key q h
  | (_, .shorthand) :: parts, key, q, h => by
    rcases List.mem_cons.mp h with heq | h
    · cases heq
    · exact inductionFields parts key q h

end

end induction

/-- A tuple pattern, as a pattern, is checked like the tuple pattern. -/
theorem validate_tuple_eq (p : TuplePattern Pattern) : validate (.tuple p) = p.validate :=
  validate_tuple p

end Pattern

namespace TuplePattern

/-- Positional parts pass with at most one rest marker, if their sub-patterns pass. -/
theorem validatePositional_eq_ok_iff {first : Option Nat} {i : Nat}
    {parts : List (PositionalPattern (Except PatternError Unit))} :
    validatePositional first i parts = .ok () ↔
      parts.countP (·.isRest) + (if first.isSome then 1 else 0) ≤ 1 ∧
        ∀ outcome, .sub outcome ∈ parts → outcome = .ok () := by
  induction parts generalizing first i with
  | nil => cases first <;> simp [validatePositional]
  | cons part parts ih =>
      cases part with
      | sub outcome =>
          cases outcome with
          | error e => simp [validatePositional, Bind.bind, Except.bind]
          | ok u => simp [validatePositional, Bind.bind, Except.bind, ih]
      | rest name =>
          rw [List.countP_cons_of_pos (PositionalPattern.isRest_rest name)]
          cases first with
          | some j => simp [validatePositional]
          | none => simp [validatePositional, ih]

/-- Parts for fields pass if their sub-patterns pass. -/
theorem validateFields_eq_ok_iff {parts : List (Symbol × FieldPattern (Except PatternError Unit))} :
    validateFields parts = .ok () ↔
      ∀ key outcome, (key, .sub outcome) ∈ parts → outcome = .ok () := by
  induction parts with
  | nil => simp [validateFields]
  | cons part parts ih =>
      obtain ⟨key, part⟩ := part
      cases part with
      | shorthand => simp [validateFields, ih]
      | sub outcome =>
          cases outcome with
          | error e =>
              refine ⟨fun h => ?_, fun h => ?_⟩
              · cases h
              · cases h key _ List.mem_cons_self
          | ok u =>
              rw [validateFields]
              refine ih.trans ⟨fun h key' outcome hmem => ?_, fun h key' outcome hmem => ?_⟩
              · rcases List.mem_cons.mp hmem with heq | hmem
                · cases heq
                  rfl
                · exact h key' outcome hmem
              · exact h key' outcome (List.mem_cons_of_mem _ hmem)

/-- A tuple pattern is valid exactly when it has at most one rest marker and its sub-patterns are
valid. -/
theorem validate_eq_ok_iff {p : TuplePattern Pattern} :
    p.validate = .ok () ↔ p.SingleRest ∧ (∀ q, .sub q ∈ p.positional → q.validate = .ok ()) ∧
      ∀ key q, (key, .sub q) ∈ p.fields → q.validate = .ok () := by
  have hparts : p.validate = .ok () ↔ validatePositional none 0 (p.map Pattern.validate).positional
      = .ok () ∧ validateFields (p.map Pattern.validate).fields = .ok () := by
    unfold validate validateParts
    cases validatePositional none 0 (p.map Pattern.validate).positional with
    | error e => simp [Bind.bind, Except.bind]
    | ok u => simp [Bind.bind, Except.bind]
  rw [hparts, validatePositional_eq_ok_iff, validateFields_eq_ok_iff, and_assoc]
  refine and_congr (singleRest_map Pattern.validate p) (and_congr ?_ ?_)
  · simp only [sub_mem_positional_map_iff, forall_exists_index, and_imp, forall_apply_eq_imp_iff₂]
  · simp only [sub_mem_fields_map_iff, forall_exists_index, and_imp, forall_apply_eq_imp_iff₂]

end TuplePattern

end TaggedTuple
