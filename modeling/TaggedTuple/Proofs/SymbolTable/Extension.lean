import Mathlib.Data.List.Forall2
import TaggedTuple.Proofs.SymbolTable

/-!
# How a symbol table grows

Interning never takes a name away from a symbol (`SymbolTable.extends_intern`), and the symbol that
it answers has the name that was asked for (`SymbolTable.Valid.name?_intern`). The same holds of
several names (`SymbolTable.Valid.internAll_named`). A name is new exactly when no symbol has it,
and then it is put behind the others (`SymbolTable.Valid.names_intern`).
-/

namespace TaggedTuple

namespace SymbolTable

variable {t t' t'' : SymbolTable}

/-- Every symbol with a name in the first table has that name in the second one. -/
def Extends (t t' : SymbolTable) : Prop :=
  ∀ ⦃s name⦄, t.name? s = some name → t'.name? s = some name

/-- A table extends itself. -/
theorem Extends.refl (t : SymbolTable) : t.Extends t := fun _ _ h => h

/-- A table extends what a table that it extends does. -/
theorem Extends.trans (h : t.Extends t') (h' : t'.Extends t'') : t.Extends t'' :=
  fun _ _ hs => h' (h hs)

/-! ### Names -/

/-- The symbols with names are the numbers below the size. -/
theorem isSome_name?_iff {s : Symbol} : (t.name? s).isSome = true ↔ s.id < t.size := by
  simp [name?, size]

/-- A table has no more names than one that extends it. -/
theorem Extends.size_le (h : t.Extends t') : t.size ≤ t'.size := by
  by_contra hlt
  -- the symbol behind the last name of `t'` has a name in `t`
  have hsome : (t.name? ⟨t'.size⟩).isSome = true := isSome_name?_iff.mpr (Nat.lt_of_not_le hlt)
  obtain ⟨name, hname⟩ := Option.isSome_iff_exists.mp hsome
  have hbound := isSome_name?_iff.mp (Option.isSome_of_eq_some (h hname))
  exact Nat.lt_irrefl _ hbound

/-- A name has a symbol exactly when it stands among the names. -/
theorem Valid.find?_eq_none_iff (h : t.Valid) {name : String} :
    t.find? name = none ↔ name ∉ t.names.toList := by
  constructor
  · intro hnone hmem
    obtain ⟨i, hi⟩ := List.mem_iff_getElem?.mp hmem
    have hfound : t.find? name = some ⟨i⟩ := (h name ⟨i⟩).mpr (by simpa [name?] using hi)
    rw [hnone] at hfound
    cases hfound
  · intro hmem
    cases hs : t.find? name with
    | none => rfl
    | some s =>
        have hname : t.names[s.id]? = some name := (h name s).mp hs
        rw [← Array.getElem?_toList] at hname
        exact absurd (List.mem_of_getElem? hname) hmem

/-! ### Interning -/

/-- A name that has a symbol keeps it, and the table stays as it is. -/
theorem intern_of_find? {name : String} {s : Symbol} (h : t.find? name = some s) :
    t.intern name = (s, t) := by
  simp only [intern, h]

/-- A name without a symbol gets the next number in both halves of the table. -/
theorem intern_of_find?_eq_none {name : String} (h : t.find? name = none) :
    t.intern name
      = (⟨t.size⟩, ⟨t.names.push name, t.symbols.insert name ⟨t.size⟩⟩) := by
  simp only [intern, h]

/-- The name of a new symbol is put behind the other names. -/
theorem Valid.names_intern (h : t.Valid) (name : String) :
    (t.intern name).2.names.toList
      = t.names.toList ++ if name ∈ t.names.toList then [] else [name] := by
  cases hs : t.find? name with
  | some s =>
      have hmem : name ∈ t.names.toList := by
        by_contra hmem
        rw [h.find?_eq_none_iff.mpr hmem] at hs
        cases hs
      rw [intern_of_find? hs, if_pos hmem, List.append_nil]
  | none =>
      rw [intern_of_find?_eq_none hs, if_neg (h.find?_eq_none_iff.mp hs), Array.toList_push]

/-- Interning takes no name away from a symbol. -/
theorem extends_intern (t : SymbolTable) (name : String) : t.Extends (t.intern name).2 := by
  intro s n hs
  cases hfind : t.find? name with
  | some s' =>
      rw [intern_of_find? hfind]
      exact hs
  | none =>
      rw [intern_of_find?_eq_none hfind]
      have hlt : s.id < t.names.size := (Array.getElem?_eq_some_iff.mp hs).1
      show (t.names.push name)[s.id]? = some n
      rw [Array.getElem?_push, if_neg (Nat.ne_of_lt hlt)]
      exact hs

/-- The symbol of an interned name has that name. -/
theorem Valid.name?_intern (h : t.Valid) (name : String) :
    (t.intern name).2.name? (t.intern name).1 = some name := by
  cases hfind : t.find? name with
  | some s =>
      rw [intern_of_find? hfind]
      exact (h name s).mp hfind
  | none =>
      rw [intern_of_find?_eq_none hfind]
      exact Array.getElem?_push_size

/-- Several names are interned one after the other, and each symbol has its name in the end. -/
theorem Valid.internAll_named (h : t.Valid) (names : List String) :
    t.Extends (t.internAll names).2 ∧
      List.Forall₂ (fun name s => (t.internAll names).2.name? s = some name) names
        (t.internAll names).1 := by
  induction names generalizing t with
  | nil => exact ⟨.refl t, .nil⟩
  | cons name names ih =>
      obtain ⟨hextends, hnamed⟩ := ih (h.intern name)
      exact ⟨(t.extends_intern name).trans hextends, .cons (hextends (h.name?_intern name)) hnamed⟩

end SymbolTable

end TaggedTuple
