import Mathlib.Tactic.SplitIfs
import TaggedTuple.SymbolTable

/-!
# The two halves of a symbol table

The names by number and the map from names to symbols are inverse to each other
(`SymbolTable.Valid`). The empty table is valid and interning keeps it so, hence two symbols never
have the same name (`Valid.name?_injective`).
-/

namespace TaggedTuple

namespace SymbolTable

/-- A name has a symbol exactly when the symbol has that name. -/
def Valid (t : SymbolTable) : Prop :=
  ∀ name s, t.find? name = some s ↔ t.name? s = some name

/-- Two symbols of a valid table never have the same name. -/
theorem Valid.name?_injective {t : SymbolTable} (h : t.Valid) {s s' : Symbol} {name : String}
    (hs : t.name? s = some name) (hs' : t.name? s' = some name) : s = s' :=
  Option.some.inj (((h name s).mpr hs).symm.trans ((h name s').mpr hs'))

/-- A table without a name, and the same table with it under the next number. -/
theorem Valid.extend {names : Array String} {symbols : Std.TreeMap String Symbol} {name : String}
    (h : Valid ⟨names, symbols⟩) (hnew : symbols[name]? = none) :
    Valid ⟨names.push name, symbols.insert name ⟨names.size⟩⟩ := by
  intro n s
  have hold : symbols[n]? = some s ↔ names[s.id]? = some n := h n s
  have hname : names[s.id]? ≠ some name := fun hs => by
    have hfound : symbols[name]? = some s := (h name s).mpr hs
    rw [hnew] at hfound
    cases hfound
  show (symbols.insert name ⟨names.size⟩)[n]? = some s ↔ (names.push name)[s.id]? = some n
  rw [Std.TreeMap.getElem?_insert, Array.getElem?_push]
  split_ifs with hn hs hs
  · -- the new name and the new number
    obtain rfl := Std.compare_eq_iff_eq.mp hn
    obtain ⟨id⟩ := s
    simpa using hs.symm
  · -- no old symbol has the new name
    obtain rfl := Std.compare_eq_iff_eq.mp hn
    refine ⟨fun heq => ?_, fun heq => absurd heq hname⟩
    cases heq
    exact absurd rfl hs
  · -- the new number has no other name
    rw [hold, hs]
    simp only [Array.getElem?_size, reduceCtorEq, Option.some.injEq, false_iff]
    exact fun heq => hn (Std.compare_eq_iff_eq.mpr heq)
  · exact hold

/-- The empty table is valid. -/
theorem valid_empty : empty.Valid := by
  have h : Valid ⟨#[], ∅⟩ := by
    intro name s
    simp [find?, name?]
  exact h.extend Std.TreeMap.getElem?_emptyc

/-- Interning keeps a table valid. -/
theorem Valid.intern {t : SymbolTable} (h : t.Valid) (name : String) : (t.intern name).2.Valid := by
  unfold SymbolTable.intern
  cases hfind : t.find? name with
  | some s => exact h
  | none => exact h.extend hfind

/-- Interning several names keeps a table valid. -/
theorem Valid.internAll {t : SymbolTable} (h : t.Valid) (names : List String) :
    (t.internAll names).2.Valid := by
  induction names generalizing t with
  | nil => exact h
  | cons name names ih => exact ih (h.intern name)

end SymbolTable

end TaggedTuple
