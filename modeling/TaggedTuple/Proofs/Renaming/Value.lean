import TaggedTuple.Proofs.Renaming.Tuple
import TaggedTuple.Proofs.Value.Equality

/-!
# Renaming the symbols of a value

A value is renamed at every depth. Equality of well-formed values does not depend on the numbers of
their symbols (`Value.beq_rename`), although tuples with layouts of their own are compared field by
field in the order of these numbers.
-/

namespace TaggedTuple

namespace Value

mutual

/-- The value with all symbols renamed, at every depth. -/
def rename (r : Symbol ↪ Symbol) : Value → Value
  | .int n => .int n
  | .str s => .str s
  | .tuple t => .tuple (renameMembers r t)

/-- The tuple with all symbols renamed, those of its members included. -/
def renameMembers (r : Symbol ↪ Symbol) : Tuple Value → Tuple Value
  | ⟨shared, positional, values⟩ =>
    ⟨shared.rename r, renameEach r positional, renameEach r values⟩

/-- The values of a list with all symbols renamed. -/
def renameEach (r : Symbol ↪ Symbol) : List Value → List Value
  | [] => []
  | v :: vs => v.rename r :: renameEach r vs

end

variable (r : Symbol ↪ Symbol)

/-- Renaming a list of values, as a map. -/
theorem renameEach_eq_map (vs : List Value) : renameEach r vs = vs.map (rename r) := by
  induction vs with
  | nil => rfl
  | cons v vs ih => rw [renameEach, ih, List.map_cons]

/-- A number has nothing to rename. -/
@[simp]
theorem rename_int (n : Int64) : rename r (.int n) = .int n := by rw [rename]

/-- A string has nothing to rename. -/
@[simp]
theorem rename_str (s : String) : rename r (.str s) = .str s := by rw [rename]

/-- A tuple value is renamed member by member. -/
@[simp]
theorem rename_tuple (t : Tuple Value) :
    rename r (.tuple t) = .tuple (t.rename r (rename r)) := by
  obtain ⟨shared, positional, values⟩ := t
  rw [rename, renameMembers, renameEach_eq_map, renameEach_eq_map]
  rfl

variable {r}

/-- Renamed values are equal exactly when the values are. -/
theorem beq_rename {v w : Value} (hv : v.WellFormed) (hw : w.WellFormed) :
    (v.rename r == w.rename r) = (v == w) := by
  induction hv generalizing w with
  | int n =>
      rw [Bool.eq_iff_iff, rename_int, int_beq_iff, int_beq_iff]
      cases w <;> simp
  | str s =>
      rw [Bool.eq_iff_iff, rename_str, str_beq_iff, str_beq_iff]
      cases w <;> simp
  | @tuple t shape _ ih =>
      rw [Bool.eq_iff_iff, rename_tuple, tuple_beq_iff, tuple_beq_iff]
      cases hw with
      | int n => simp
      | str s => simp
      | @tuple u shape' members' =>
          have hbeq : (t.rename r (rename r) == u.rename r (rename r)) = (t == u) := by
            apply Tuple.beq_rename r _ shape shape'
            intro a ha b hb
            exact ih a ha (members' b hb)
          simp [hbeq]

end Value

end TaggedTuple
