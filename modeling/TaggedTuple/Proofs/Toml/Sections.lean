import TaggedTuple.Proofs.Association
import TaggedTuple.Toml.Document

/-!
# Documents made of sections

A section is a header with keys and values below it. Following the lines of sections with distinct
names and keys defines one table for each, with its values in the order of the lines
(`follow_sections`).
-/

namespace TaggedTuple.Toml

/-- A section: its name, and its keys with their values. -/
abbrev Section := String × List (String × Datum)

/-- The line that gives a key a value. -/
def keyLine (x : String × Datum) : Line := .assign ⟨[], x.1⟩ x.2

namespace Section

/-- The lines of a section. -/
def lines (s : Section) : List Line := .header ⟨[], s.1⟩ :: s.2.map keyLine

/-- The table that a section defines. -/
def table (s : Section) : Table Item := ⟨.defined, s.2.map fun x => (x.1, .value x.2)⟩

end Section

namespace Table

variable {t sub : Table Item} {name : String} {item : Item}

/-- A name without an entry is not found. -/
theorem find?_eq_none (h : name ∉ t.entries.map Prod.fst) : t.find? name = none :=
  lookup_eq_none_iff_not_mem_keys.mpr h

/-- An entry under a new name is found under it. -/
theorem find?_add (h : name ∉ t.entries.map Prod.fst) :
    (t.add name item).find? name = some item := by
  show (t.entries ++ [(name, item)]).lookup name = some item
  rw [List.lookup_append, lookup_eq_none_iff_not_mem_keys.mpr h, List.lookup_cons_self]
  rfl

/-- Replacing what was added last is adding the other entry in its place. -/
theorem replace_add (h : name ∉ t.entries.map Prod.fst) (item' : Item) :
    (t.add name item).replace name item' = t.add name item' := by
  have hkeep : ∀ x ∈ t.entries, (x.1, if x.1 = name then item' else x.2) = x := by
    intro x hx
    have hne : x.1 ≠ name := by
      rintro rfl
      exact h (List.mem_map_of_mem hx)
    rw [if_neg hne]
  simp only [add, replace, List.map_append, List.map_cons, List.map_nil, if_true,
    List.map_congr_left hkeep, List.map_id']

/-- A table that was added last is changed in its place. -/
theorem alter_add (h : name ∉ t.entries.map Prod.fst)
    (change : Table Item → Option (Table Item)) :
    (t.add name (.table sub)).alter false change [name]
      = (change sub).map fun sub' => t.add name (.table sub') := by
  rw [alter, find?_add h]
  show (do
    let sub' ← alter false change [] sub
    return (t.add name (.table sub)).replace name (.table sub')) = _
  rw [alter]
  cases change sub with
  | none => rfl
  | some sub' => exact congrArg some (replace_add h _)

/-- A key that is new in the table of a header gets its value at the end. -/
theorem assign_new {entries : List (String × Item)} {key : String}
    (h : key ∉ entries.map Prod.fst) (d : Datum) :
    assign ⟨[], key⟩ d ⟨.defined, entries⟩ = some ⟨.defined, entries ++ [(key, .value d)]⟩ := by
  show addNew key (.value d) ⟨.defined, entries⟩ = _
  rw [addNew, find?_eq_none h]
  rfl

/-- A header that is new adds its table at the end. -/
theorem define_new (h : name ∉ t.entries.map Prod.fst) :
    t.define ⟨[], name⟩ = some (t.add name (.table (empty .defined))) := by
  rw [define, alter, find?_eq_none h]

end Table

namespace Document

/-- The keys below a header are added to its table one after the other. -/
theorem follow_assignments {t : Table Item} {name : String} (h : name ∉ t.entries.map Prod.fst)
    {entries : List (String × Item)} {xs : List (String × Datum)}
    (hkeys : (entries.map Prod.fst ++ xs.map Prod.fst).Nodup) (ls : List Line) :
    follow (t.add name (.table ⟨.defined, entries⟩)) [name] (xs.map keyLine ++ ls)
      = follow (t.add name (.table ⟨.defined, entries ++ xs.map fun x => (x.1, .value x.2)⟩)) [name]
          ls := by
  induction xs generalizing entries with
  | nil => rw [List.map_nil, List.map_nil, List.append_nil, List.nil_append]
  | cons x xs ih =>
      obtain ⟨key, d⟩ := x
      have hnew : key ∉ entries.map Prod.fst := fun hmem =>
        List.disjoint_of_nodup_append hkeys hmem List.mem_cons_self
      have hrest : ((entries ++ [(key, Item.value d)]).map Prod.fst ++ xs.map Prod.fst).Nodup := by
        rw [List.map_append, List.append_assoc]
        exact hkeys
      have hstep : (t.add name (.table ⟨.defined, entries⟩)).alter false
          (Table.assign ⟨[], key⟩ d) [name]
            = some (t.add name (.table ⟨.defined, entries ++ [(key, .value d)]⟩)) := by
        rw [Table.alter_add h, Table.assign_new hnew]
        rfl
      rw [List.map_cons, List.cons_append, keyLine, follow, hstep]
      show follow _ [name] _ = _
      rw [ih hrest, List.map_cons, List.append_assoc]
      rfl

/-- Sections with distinct names, each with distinct keys, define their tables one after the
other. -/
theorem follow_sections (t : Table Item) (current : List String) {ss : List Section}
    (hnames : (t.entries.map Prod.fst ++ ss.map Prod.fst).Nodup)
    (hkeys : ∀ s ∈ ss, (s.2.map Prod.fst).Nodup) :
    follow t current (ss.flatMap Section.lines)
      = some { t with entries := t.entries ++ ss.map fun s => (s.1, .table s.table) } := by
  induction ss generalizing t current with
  | nil =>
      rw [List.flatMap_nil, follow, List.map_nil, List.append_nil]
  | cons s ss ih =>
      obtain ⟨name, xs⟩ := s
      obtain ⟨hxs, hkeys⟩ := List.forall_mem_cons.mp hkeys
      have hnew : name ∉ t.entries.map Prod.fst := fun hmem =>
        List.disjoint_of_nodup_append hnames hmem List.mem_cons_self
      have hrest : ((t.add name (.table (Section.table (name, xs)))).entries.map Prod.fst
          ++ ss.map Prod.fst).Nodup := by
        rw [Table.add, List.map_append, List.append_assoc]
        exact hnames
      rw [List.flatMap_cons, Section.lines, List.cons_append, follow, Table.define_new hnew]
      show follow (t.add name (.table ⟨.defined, []⟩)) [name] _ = _
      rw [follow_assignments hnew (by simpa using hxs), List.nil_append]
      show follow (t.add name (.table (Section.table (name, xs)))) [name] _ = _
      rw [ih _ _ hrest hkeys, Table.add, List.append_assoc]
      rfl

/-- Values as items have their own data. -/
theorem entryData_values (xs : List (String × Datum)) :
    Item.entryData (xs.map fun x => (x.1, .value x.2)) = xs := by
  induction xs with
  | nil => rfl
  | cons x xs ih =>
      rw [List.map_cons, Item.entryData, ih, Item.toDatum]

/-- The data of the tables that sections define. -/
theorem entryData_sections (ss : List Section) :
    Item.entryData (ss.map fun s => (s.1, .table s.table)) = ss.map fun s => (s.1, .table s.2) := by
  induction ss with
  | nil => rfl
  | cons s ss ih =>
      rw [List.map_cons, Item.entryData, ih, Item.toDatum, Section.table, Item.tableEntries,
        entryData_values, List.map_cons]

/-- A text whose lines are those of sections holds their data. -/
theorem read_eq_of_lines {text : String} {ss : List Section} {rest : List Char}
    (h : Reader.lines text.toList = some (ss.flatMap Section.lines, rest))
    (hnames : (ss.map Prod.fst).Nodup) (hkeys : ∀ s ∈ ss, (s.2.map Prod.fst).Nodup) :
    read text = some (ss.map fun s => (s.1, .table s.2)) := by
  have hfollow := follow_sections (.empty .defined) [] hnames hkeys
  rw [read, h]
  show (follow (.empty .defined) [] (ss.flatMap Section.lines)).bind _ = _
  rw [hfollow]
  exact congrArg some (entryData_sections ss)

end Document

end TaggedTuple.Toml
