import TaggedTuple.Proofs.Association
import TaggedTuple.Toml.Document

/-!
# Documents name no key twice

In the data of a document no table has two entries of one name, on any level
(`Document.read_distinctKeys`). So it does not matter in which order a document gives its keys.

A table in the making has distinct keys if its data has. Whatever lines do to tables keeps that: an
entry is added only for a name that is not in use, and replaced in its place (`Keeps`). The values
that are read off a text have distinct keys as well, which is followed through the readers they are
put together from (`Reader.Yields`).
-/

namespace TaggedTuple.Toml

/-! ### Values and tables with distinct keys -/

/-- No table in a value, on any level, has two entries of one name. -/
inductive Datum.DistinctKeys : Datum → Prop where
  | string (s : String) : DistinctKeys (.string s)
  | integer (n : Int) : DistinctKeys (.integer n)
  | float (text : String) : DistinctKeys (.float text)
  | boolean (b : Bool) : DistinctKeys (.boolean b)
  | moment (text : String) : DistinctKeys (.moment text)
  | array {elements : List Datum} (h : ∀ d ∈ elements, DistinctKeys d) :
      DistinctKeys (.array elements)
  | table {entries : List (String × Datum)} (nodup : (entries.map Prod.fst).Nodup)
      (h : ∀ x ∈ entries, DistinctKeys x.2) : DistinctKeys (.table entries)

namespace Datum

/-- No table in an array names a key twice if none in its elements does. -/
theorem distinctKeys_array_iff {elements : List Datum} :
    (array elements).DistinctKeys ↔ ∀ d ∈ elements, d.DistinctKeys := by
  constructor
  · rintro ⟨⟩
    assumption
  · exact .array

/-- A table names no key twice if its keys differ and no table inside does. -/
theorem distinctKeys_table_iff {entries : List (String × Datum)} :
    (table entries).DistinctKeys ↔
      (entries.map Prod.fst).Nodup ∧ ∀ x ∈ entries, x.2.DistinctKeys := by
  constructor
  · rintro ⟨⟩
    exact ⟨‹_›, ‹_›⟩
  · exact fun h => .table h.1 h.2

end Datum

namespace Item

/-- The data of entries are those of their items. -/
theorem entryData_eq_map (entries : List (String × Item)) :
    entryData entries = entries.map fun x => (x.1, x.2.toDatum) := by
  induction entries with
  | nil => rfl
  | cons x entries ih => rw [entryData, ih, List.map_cons]

/-- The data of an array of tables are those of the tables. -/
theorem tableData_eq_map (ts : List (Table Item)) :
    tableData ts = ts.map fun t => .table (tableEntries t) := by
  induction ts with
  | nil => rfl
  | cons t ts ih => rw [tableData, ih, List.map_cons]

end Item

namespace Table

variable {t u : Table Item} {name : String} {item : Item}

/-- The data of a table in the making has distinct keys. -/
def DistinctKeys (t : Table Item) : Prop := (Datum.table (Item.tableEntries t)).DistinctKeys

/-- A table under construction names no key twice if its keys differ and no item inside does. -/
theorem distinctKeys_iff :
    t.DistinctKeys ↔
      (t.entries.map Prod.fst).Nodup ∧ ∀ x ∈ t.entries, x.2.toDatum.DistinctKeys := by
  obtain ⟨origin, entries⟩ := t
  rw [DistinctKeys, Item.tableEntries, Item.entryData_eq_map, Datum.distinctKeys_table_iff,
    List.map_map, List.forall_mem_map]
  rfl

/-- A table as an item names no key twice if the table does not. -/
theorem distinctKeys_toDatum_table_iff :
    (Item.table t).toDatum.DistinctKeys ↔ t.DistinctKeys := by
  rw [Item.toDatum, DistinctKeys]

/-- An array of tables as an item names no key twice if none of the tables does. -/
theorem distinctKeys_toDatum_tables_iff {ts : List (Table Item)} :
    (Item.tables ts).toDatum.DistinctKeys ↔ ∀ t ∈ ts, t.DistinctKeys := by
  rw [Item.toDatum, Item.tableData_eq_map, Datum.distinctKeys_array_iff, List.forall_mem_map]
  rfl

/-- A table without entries names no key twice. -/
theorem distinctKeys_empty (origin : Origin) : (empty origin).DistinctKeys :=
  distinctKeys_iff.mpr ⟨List.nodup_nil, nofun⟩

/-- How a table came about does not matter. -/
theorem DistinctKeys.withOrigin (ht : t.DistinctKeys) (origin : Origin) :
    ({ t with origin } : Table Item).DistinctKeys := by
  obtain ⟨hnodup, hitems⟩ := distinctKeys_iff.mp ht
  exact distinctKeys_iff.mpr ⟨hnodup, hitems⟩

/-- No table inside an item that is found names a key twice. -/
theorem DistinctKeys.find? (ht : t.DistinctKeys) (h : t.find? name = some item) :
    item.toDatum.DistinctKeys :=
  (distinctKeys_iff.mp ht).2 _ (mem_of_lookup_eq_some h)

/-- An entry under a new name may be added. -/
theorem DistinctKeys.add (ht : t.DistinctKeys) (hname : t.find? name = none)
    (hitem : item.toDatum.DistinctKeys) : (t.add name item).DistinctKeys := by
  obtain ⟨hnodup, hitems⟩ := distinctKeys_iff.mp ht
  have hnew : name ∉ t.entries.map Prod.fst := lookup_eq_none_iff_not_mem_keys.mp hname
  refine distinctKeys_iff.mpr ⟨?_, ?_⟩
  · rw [Table.add, List.map_append]
    exact List.concat_eq_append ▸ hnodup.concat hnew
  · exact List.forall_mem_append.mpr ⟨hitems, List.forall_mem_singleton.mpr hitem⟩

/-- An item may be replaced by another one under its name. -/
theorem DistinctKeys.replace (ht : t.DistinctKeys) (name : String)
    (hitem : item.toDatum.DistinctKeys) : (t.replace name item).DistinctKeys := by
  obtain ⟨hnodup, hitems⟩ := distinctKeys_iff.mp ht
  refine distinctKeys_iff.mpr ⟨?_, ?_⟩
  · rw [Table.replace, List.map_map]
    exact hnodup
  · refine List.forall_mem_map.mpr fun x hx => ?_
    show (if x.1 = name then item else x.2).toDatum.DistinctKeys
    split
    · exact hitem
    · exact hitems x hx

/-! ### Changes of tables -/

/-- A change leaves the keys of a table distinct. -/
def Keeps (change : Table Item → Option (Table Item)) : Prop :=
  ∀ ⦃t u⦄, t.DistinctKeys → change t = some u → u.DistinctKeys

/-- A change at the end of a path leaves all keys on the way distinct. -/
theorem Keeps.alter {change : Table Item → Option (Table Item)} (h : Keeps change) (dotted : Bool)
    (path : List String) : Keeps (Table.alter dotted change path) := by
  induction path with
  | nil => exact h
  | cons name path ih =>
      intro t u ht hu
      rw [Table.alter] at hu
      split at hu
      next hfind =>
        obtain ⟨sub, hsub, ⟨⟩⟩ := Option.bind_eq_some_iff.mp hu
        have hsub := ih (distinctKeys_empty _) hsub
        exact ht.add hfind (distinctKeys_toDatum_table_iff.mpr hsub)
      next => cases hu
      next sub hfind =>
        have hold := distinctKeys_toDatum_table_iff.mp (ht.find? hfind)
        split at hu
        · cases hu
        · obtain ⟨sub', hsub', ⟨⟩⟩ := Option.bind_eq_some_iff.mp hu
          exact ht.replace name (distinctKeys_toDatum_table_iff.mpr (ih hold hsub'))
      next ts hfind =>
        have hold := distinctKeys_toDatum_tables_iff.mp (ht.find? hfind)
        obtain ⟨last, hlast, hu⟩ := Option.bind_eq_some_iff.mp hu
        obtain ⟨last', hlast', ⟨⟩⟩ := Option.bind_eq_some_iff.mp hu
        have hnew := ih (hold last (List.mem_of_getLast? hlast)) hlast'
        refine ht.replace name (distinctKeys_toDatum_tables_iff.mpr ?_)
        refine List.forall_mem_append.mpr ⟨?_, List.forall_mem_singleton.mpr hnew⟩
        exact fun t ht => hold t (List.dropLast_subset _ ht)

/-- An entry that is added only under a new name keeps the names different. -/
theorem keeps_addNew (name : String) {item : Item} (hitem : item.toDatum.DistinctKeys) :
    Keeps (addNew name item) := by
  intro t u ht hu
  rw [addNew] at hu
  split at hu
  next => cases hu
  next hfind =>
    cases hu
    exact ht.add hfind hitem

/-- An assignment keeps the names different, at whatever depth it puts its value. -/
theorem keeps_assign (key : KeyPath) {d : Datum} (hd : d.DistinctKeys) : Keeps (assign key d) := by
  refine Keeps.alter (fun t u ht hu => ?_) true key.parents
  split at hu
  · cases hu
  · refine keeps_addNew key.name ?_ ht hu
    rwa [Item.toDatum]

/-- The header of a table keeps the names different. -/
theorem keeps_define (key : KeyPath) : Keeps (define key) := by
  refine Keeps.alter (fun t u ht hu => ?_) false key.parents
  split at hu
  next hfind =>
    cases hu
    exact ht.add hfind (distinctKeys_toDatum_table_iff.mpr (distinctKeys_empty _))
  next sub hfind =>
    split at hu
    · cases hu
      have hsub := distinctKeys_toDatum_table_iff.mp (ht.find? hfind)
      exact ht.replace _ (distinctKeys_toDatum_table_iff.mpr (hsub.withOrigin _))
    · cases hu
  next => cases hu

/-- The header of an element of an array keeps the names different. -/
theorem keeps_defineElement (key : KeyPath) : Keeps (defineElement key) := by
  refine Keeps.alter (fun t u ht hu => ?_) false key.parents
  have hempty : ∀ t ∈ [empty (ι := Item) .defined], t.DistinctKeys :=
    List.forall_mem_singleton.mpr (distinctKeys_empty _)
  split at hu
  next hfind =>
    cases hu
    exact ht.add hfind (distinctKeys_toDatum_tables_iff.mpr hempty)
  next ts hfind =>
    cases hu
    have hts := distinctKeys_toDatum_tables_iff.mp (ht.find? hfind)
    refine ht.replace _ (distinctKeys_toDatum_tables_iff.mpr ?_)
    exact List.forall_mem_append.mpr ⟨hts, hempty⟩
  next => cases hu

/-- Several assignments keep the names different. -/
theorem keeps_assignAll {entries : List (KeyPath × Datum)}
    (h : ∀ x ∈ entries, x.2.DistinctKeys) : Keeps (assignAll entries) := by
  induction entries with
  | nil =>
      intro t u ht hu
      cases hu
      exact ht
  | cons x entries ih =>
      intro t u ht hu
      obtain ⟨hx, hentries⟩ := List.forall_mem_cons.mp h
      obtain ⟨t', ht', hu⟩ := Option.bind_eq_some_iff.mp hu
      exact ih hentries (keeps_assign x.1 hx ht ht') hu

end Table

/-! ### What readers take -/

namespace Reader

variable {α β : Type} {r q : Reader α} {P : α → Prop} {Q : β → Prop}

/-- Whatever a reader takes off a text has the property. -/
def Yields (r : Reader α) (P : α → Prop) : Prop := ∀ s a rest, r s = some (a, rest) → P a

/-- A result without reading is the only one. -/
theorem yields_pure {a : α} (h : P a) : Yields (pure a) P := by
  rintro s _ _ ⟨⟩
  exact h

/-- A reader that always fails yields nothing. -/
theorem yields_failure : Yields failure P := nofun

/-- A choice by a condition yields what either side yields. -/
theorem yields_ite {c : Prop} [Decidable c] (hr : Yields r P) (hq : Yields q P) :
    Yields (if c then r else q) P := by
  split
  · exact hr
  · exact hq

/-- What a second reader takes may rest on what the first one took. -/
theorem Yields.bind {f : α → Reader β} (hr : Yields r P) (hf : ∀ a, P a → Yields (f a) Q) :
    Yields (r >>= f) Q := by
  intro s b rest h
  obtain ⟨⟨a, s'⟩, ha, hb⟩ := Option.bind_eq_some_iff.mp h
  exact hf a (hr s a s' ha) s' b rest hb

/-- The last of several readers decides. -/
theorem yields_bind {f : α → Reader β} (hf : ∀ a, Yields (f a) Q) : Yields (r >>= f) Q :=
  Yields.bind (P := fun _ => True) (fun _ _ _ _ => trivial) fun a _ => hf a

/-- A second reader where the first one fails yields what either of them yields. -/
theorem yields_orElse (hr : Yields r P) (hq : Yields q P) : Yields (orElse r q) P := by
  intro s a rest h
  rw [orElse] at h
  split at h
  next result hresult =>
    cases h
    exact hr s a rest hresult
  next => exact hq s a rest h

/-- An optional reading yields what the reader yields, if anything. -/
theorem yields_optional (hr : Yields r P) : Yields (optional r) fun o => ∀ a, o = some a → P a := by
  rintro s o rest h a rfl
  rw [optional] at h
  split at h
  next a' rest' hresult =>
    cases h
    exact hr s a rest hresult
  next => cases h

/-- A bounded repetition yields lists of what the reader yields. -/
theorem forall_manyUpTo (hr : Yields r P) (fuel : Nat) (s : List Char) :
    ∀ a ∈ (manyUpTo r fuel s).1, P a := by
  induction fuel generalizing s with
  | zero => exact nofun
  | succ fuel ih =>
      rw [manyUpTo]
      split
      next => exact nofun
      next a rest hresult =>
        split
        · exact List.forall_mem_cons.mpr ⟨hr s a rest hresult, ih rest⟩
        · exact nofun

/-- A repetition yields lists of what the reader yields. -/
theorem yields_many (hr : Yields r P) : Yields (many r) fun as => ∀ a ∈ as, P a := by
  intro s as rest h
  obtain rfl : (manyUpTo r s.length s).1 = as := congrArg Prod.fst (Option.some.inj h)
  exact forall_manyUpTo hr s.length s

/-! ### What values hold -/

/-- Integers hold no tables. -/
theorem yields_integer : Yields integer Datum.DistinctKeys := by
  have hbounded (c : Prop) [Decidable c] (n : Int) :
      Yields (if c then pure (Datum.integer n) else failure) Datum.DistinctKeys :=
    yields_ite (yields_pure (.integer n)) yields_failure
  have hbased (letter : Char) (base : Nat) :
      Yields (basedInteger letter base) Datum.DistinctKeys :=
    yields_bind fun _ => yields_bind fun _ => hbounded _ _
  have hdecimal : Yields decimalInteger Datum.DistinctKeys :=
    yields_bind fun _ => yields_bind fun _ => yields_ite (hbounded _ _) (hbounded _ _)
  exact yields_orElse (hbased _ _)
    (yields_orElse (hbased _ _) (yields_orElse (hbased _ _) hdecimal))

/-- Numbers with a fraction or an exponent hold no tables. -/
theorem yields_finiteFloat : Yields finiteFloat Datum.DistinctKeys := by
  refine yields_bind fun _ => yields_bind fun whole => yields_bind fun fraction => ?_
  have hfinish (c : Prop) [Decidable c] (text : String) :
      Yields (if c then failure else pure (Datum.float text)) Datum.DistinctKeys :=
    yields_ite yields_failure (yields_pure (.float text))
  exact yields_ite (yields_bind fun _ => hfinish _ _) (yields_bind fun _ => hfinish _ _)

/-- Scalars hold no tables. -/
theorem yields_scalar : Yields scalar Datum.DistinctKeys := by
  have hstring : Yields (do return Datum.string (String.ofList (← string))) Datum.DistinctKeys :=
    yields_bind fun _ => yields_pure (.string _)
  have hboolean : Yields boolean Datum.DistinctKeys :=
    yields_orElse (yields_bind fun _ => yields_pure (.boolean true))
      (yields_bind fun _ => yields_pure (.boolean false))
  have hmoment : Yields moment Datum.DistinctKeys :=
    yields_bind fun _ => yields_pure (.moment _)
  have hnamed : Yields namedFloat Datum.DistinctKeys :=
    yields_bind fun _ => yields_bind fun _ => yields_pure (.float _)
  exact yields_orElse hstring (yields_orElse hboolean (yields_orElse hmoment
    (yields_orElse yields_finiteFloat (yields_orElse hnamed yields_integer))))

section parts

variable {v : Reader Datum}

/-- The value of an assignment names no key twice if values do not. -/
theorem yields_assignment (hv : Yields v Datum.DistinctKeys) :
    Yields (assignment v) fun x => x.2.DistinctKeys :=
  yields_bind fun _ => yields_bind fun _ => yields_bind fun _ => hv.bind fun _ hd =>
    yields_bind fun _ => yields_pure hd

/-- An element of an array names no key twice if values do not. -/
theorem yields_element (hv : Yields v Datum.DistinctKeys) :
    Yields (element v) Datum.DistinctKeys :=
  yields_bind fun _ => hv.bind fun _ hd => yields_bind fun _ => yields_pure hd

/-- The elements of an array name no key twice if values do not. -/
theorem yields_elements (hv : Yields v Datum.DistinctKeys) :
    Yields (elements v) fun ds => ∀ d ∈ ds, d.DistinctKeys := by
  refine (yields_optional (yields_element hv)).bind fun first hfirst => ?_
  cases first with
  | none => exact yields_bind fun _ => yields_bind fun _ => yields_pure nofun
  | some d =>
      refine (yields_many (yields_bind fun _ => yields_element hv)).bind fun ds hds => ?_
      refine yields_bind fun _ => yields_bind fun _ => yields_bind fun _ => yields_pure ?_
      exact List.forall_mem_cons.mpr ⟨hfirst d rfl, hds⟩

/-- The values in an inline table name no key twice if values do not. -/
theorem yields_inlineEntries (hv : Yields v Datum.DistinctKeys) :
    Yields (inlineEntries v) fun xs => ∀ x ∈ xs, x.2.DistinctKeys := by
  refine (yields_optional (yields_assignment hv)).bind fun first hfirst => ?_
  cases first with
  | none => exact yields_bind fun _ => yields_bind fun _ => yields_pure nofun
  | some x =>
      refine (yields_many (yields_bind fun _ => yields_assignment hv)).bind fun xs hxs => ?_
      refine yields_bind fun _ => yields_pure ?_
      exact List.forall_mem_cons.mpr ⟨hfirst x rfl, hxs⟩

end parts

/-- A value has distinct keys, however deep it is nested: the entries of an inline table are added
to a table one by one, like the lines of a section. -/
theorem yields_value (nesting : Nat) : Yields (value nesting) Datum.DistinctKeys := by
  induction nesting with
  | zero => exact yields_scalar
  | succ nesting ih =>
      intro s d rest h
      rw [value] at h
      beta_reduce at h
      split at h
      next s =>
        obtain ⟨⟨ds, rest'⟩, hds, ⟨⟩⟩ := Option.bind_eq_some_iff.mp h
        exact .array (yields_elements ih s ds rest hds)
      next s =>
        split at h
        next => cases h
        next xs rest' hxs =>
          obtain ⟨t, ht, ⟨⟩⟩ := Option.map_eq_some_iff.mp h
          have hentries := yields_inlineEntries ih s xs rest hxs
          exact Table.keeps_assignAll hentries (Table.distinctKeys_empty _) ht
      next => exact yields_scalar s d rest h

end Reader

/-! ### Lines and documents -/

/-- The value that a line gives a key, if any, has distinct keys. -/
def Line.DistinctKeys : Line → Prop
  | .assign _ d => d.DistinctKeys
  | .header _ => True
  | .elementHeader _ => True

namespace Reader

/-- No line of a document holds a value that names a key twice. -/
theorem yields_statement : Yields statement Line.DistinctKeys := by
  have hheader : Yields header Line.DistinctKeys := by
    refine yields_bind fun _ => yields_bind fun _ => yields_ite ?_ ?_
    · exact yields_bind fun _ => yields_bind fun _ => yields_bind fun _ => yields_bind fun _ =>
        yields_pure trivial
    · exact yields_bind fun _ => yields_bind fun _ => yields_pure trivial
  refine (yields_orElse hheader ?_).bind fun l hl => yields_bind fun _ => yields_pure hl
  exact (yields_assignment (yields_value maxNesting)).bind fun x hx => yields_pure hx

/-- No line of a whole document holds a value that names a key twice. -/
theorem yields_lines : Yields lines fun ls => ∀ l ∈ ls, l.DistinctKeys := by
  have hline : Yields line fun o => ∀ l, o = some l → l.DistinctKeys := by
    refine yields_orElse (yields_bind fun _ => yields_pure nofun) (yields_bind fun _ => ?_)
    refine yields_statement.bind fun l hl => yields_pure ?_
    rintro _ ⟨⟩
    exact hl
  refine yields_bind fun _ => (yields_many hline).bind fun found hfound => ?_
  refine yields_bind fun _ => yields_bind fun _ => yields_bind fun _ => yields_pure ?_
  intro l hl
  obtain ⟨o, ho, hol⟩ := List.mem_filterMap.mp hl
  exact hfound o ho l hol

end Reader

namespace Document

/-- Following the lines of a document keeps the names of its tables different. -/
theorem keeps_follow {ls : List Line} (h : ∀ l ∈ ls, l.DistinctKeys) (current : List String) :
    Table.Keeps fun t => follow t current ls := by
  induction ls generalizing current with
  | nil =>
      intro t u ht hu
      cases hu
      exact ht
  | cons l ls ih =>
      intro t u ht hu
      obtain ⟨hl, hls⟩ := List.forall_mem_cons.mp h
      cases l with
      | assign key d =>
          obtain ⟨t', ht', hu⟩ := Option.bind_eq_some_iff.mp hu
          exact ih hls current ((Table.keeps_assign key hl).alter false current ht ht') hu
      | header key =>
          obtain ⟨t', ht', hu⟩ := Option.bind_eq_some_iff.mp hu
          exact ih hls key.names (Table.keeps_define key ht ht') hu
      | elementHeader key =>
          obtain ⟨t', ht', hu⟩ := Option.bind_eq_some_iff.mp hu
          exact ih hls key.names (Table.keeps_defineElement key ht ht') hu

/-- In the data of a document no table has two entries of one name, on any level. -/
theorem read_distinctKeys {text : String} {entries : List (String × Datum)}
    (h : read text = some entries) : (Datum.table entries).DistinctKeys := by
  obtain ⟨⟨ls, rest⟩, hlines, h⟩ := Option.bind_eq_some_iff.mp h
  obtain ⟨t, ht, ⟨⟩⟩ := Option.bind_eq_some_iff.mp h
  have hls := Reader.yields_lines _ ls rest hlines
  exact keeps_follow hls [] (Table.distinctKeys_empty _) ht

end Document

end TaggedTuple.Toml
