import TaggedTuple.Proofs.Association
import TaggedTuple.Proofs.SymbolTable.Capacity

/-!
# What a symbol table has been asked for

A table that started out empty holds the names that it was asked to intern, each at the place of its
first occurrence and behind the empty name (`SymbolTable.Records`). As long as the different names
fit into the table, each of the three ways to ask for a symbol does the same
(`SymbolTable.Records.answer_intern`) and keeps this up (`SymbolTable.Records.intern`); looking a
name up changes nothing. Whatever is called, no symbol loses its name
(`SymbolTable.extends_answer`).
-/

namespace TaggedTuple

namespace SymbolTable

variable {t : SymbolTable} {asked : List String}

/-- The names of a table that was asked for the given ones: first occurrences, the empty name in
front. -/
def firstOccurrences (asked : List String) : List String := ("" :: asked).eraseDups

/-- A name that is asked for last is a first occurrence if it did not occur before. -/
theorem firstOccurrences_concat (asked : List String) (name : String) :
    firstOccurrences (asked ++ [name])
      = firstOccurrences asked ++ if name ∈ firstOccurrences asked then [] else [name] := by
  unfold firstOccurrences
  rw [← List.cons_append, eraseDups_concat]
  simp only [List.mem_eraseDups]

/-- Asking for more names leaves no fewer different ones. -/
theorem length_firstOccurrences_le (asked more : List String) :
    (firstOccurrences asked).length ≤ (firstOccurrences (asked ++ more)).length := by
  unfold firstOccurrences
  rw [← List.cons_append, List.eraseDups_append, List.length_append]
  exact Nat.le_add_right _ _

/-- The table is valid and holds the names that it was asked for, in the order in which they first
occurred. -/
structure Records (t : SymbolTable) (asked : List String) : Prop where
  valid : t.Valid
  names_eq : t.names.toList = firstOccurrences asked

/-- The empty table was asked for nothing. -/
theorem records_empty : empty.Records [] := ⟨valid_empty, rfl⟩

/-- A table holds as many names as it was asked for different ones. -/
theorem Records.size_eq (h : t.Records asked) : t.size = (firstOccurrences asked).length := by
  rw [← h.names_eq]
  exact Array.length_toList.symm

/-- A table that is asked for one more name has one more in its history. -/
theorem Records.intern (h : t.Records asked) (name : String) :
    (t.intern name).2.Records (asked ++ [name]) where
  valid := h.valid.intern name
  names_eq := by rw [h.valid.names_intern, firstOccurrences_concat, h.names_eq]

/-! ### Calls -/

/-- With room for the name every way to ask for its symbol does the same. -/
theorem answer_intern {name : String} (h : t.find? name = none → t.size < capacity)
    (entry : Entry) :
    t.answer (.intern entry name) = (.symbol (t.intern name).1, (t.intern name).2) := by
  simp only [answer, attempt_eq_tryIntern, tryIntern_eq_intern h]

/-- A full table refuses a new name whoever asks, and stays as it is. -/
theorem answer_intern_of_full {name : String} (hfind : t.find? name = none)
    (hfull : capacity ≤ t.size) (entry : Entry) :
    t.answer (.intern entry name) = (entry.overflow (.overflow t.size), t) := by
  simp only [answer, attempt_eq_tryIntern, tryIntern_eq_error hfind hfull]

/-- No call takes a name away from a symbol. -/
theorem extends_answer (t : SymbolTable) (call : Call) : t.Extends (t.answer call).2 := by
  cases call with
  | find name => exact .refl t
  | intern entry name =>
      by_cases hroom : t.find? name = none → t.size < capacity
      · rw [answer_intern hroom]
        exact t.extends_intern name
      · obtain ⟨hfind, hfull⟩ := Classical.not_imp.mp hroom
        rw [answer_intern_of_full hfind (Nat.le_of_not_lt hfull)]
        exact .refl t

/-- A table that has room for all names that it was asked for gives each its symbol. -/
theorem Records.answer_intern (h : t.Records asked) {name : String}
    (hroom : (firstOccurrences (asked ++ [name])).length ≤ capacity) (entry : Entry) :
    t.answer (.intern entry name) = (.symbol (t.intern name).1, (t.intern name).2) := by
  refine SymbolTable.answer_intern (fun hfind => ?_) entry
  have hgrows := t.size_intern name
  rw [if_pos hfind, (h.intern name).size_eq] at hgrows
  omega

end SymbolTable

end TaggedTuple
