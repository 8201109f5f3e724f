import TaggedTuple.Proofs.Canonical.Codec
import TaggedTuple.Proofs.Canonical.Form
import TaggedTuple.Proofs.SymbolTable.Capacity

/-!
# Loading a canonical form in another session

Reading a canonical form interns its names and builds a tuple on a layout of the cache. Whatever the
table and the cache hold already, the tuple that comes out is described by the form that went in,
once its names are in order (`CanonicalTuple.toTuple_cases`): the symbols may be others, and so may
their order and the order in which the layout declares the fields, but the names and the values are
the same. A form with the right count is loaded unless a name repeats or the table has no room for
its names (`CanonicalTuple.toTuple_eq_error`).

So a tuple survives being written in one session and read in another one
(`Tuple.exists_load_encode`), and reading it back in the session that wrote it gives an equal tuple.
-/

namespace TaggedTuple

variable {α : Type}

/-! ### Interning the names of a form -/

/-- Interns a name, if there is one. -/
def CanonicalTuple.internTag (table : SymbolTable) : Option String → Option Symbol × SymbolTable
  | none => (none, table)
  | some name =>
    let (s, table) := table.intern name
    (some s, table)

/-- Interning a tag keeps a table valid. -/
theorem SymbolTable.Valid.internTag {table : SymbolTable} (h : table.Valid) (tag : Option String) :
    (CanonicalTuple.internTag table tag).2.Valid := by
  cases tag with
  | none => exact h
  | some name => exact h.intern name

/-- The symbol of an interned tag has the name of the tag. -/
theorem SymbolTable.Valid.internTag_named {table : SymbolTable} (h : table.Valid)
    (tag : Option String) :
    table.Extends (CanonicalTuple.internTag table tag).2 ∧
      Option.Rel (fun name s => (CanonicalTuple.internTag table tag).2.name? s = some name) tag
        (CanonicalTuple.internTag table tag).1 := by
  cases tag with
  | none => exact ⟨.refl table, .none⟩
  | some name => exact ⟨table.extends_intern name, .some (h.name?_intern name)⟩

/-- An optional name is that of the optional symbol. -/
theorem eq_bind_of_rel {names : Symbol.Names} {name? : Option String} {s? : Option Symbol}
    (h : Option.Rel (fun name s => names s = some name) name? s?) : name? = s?.bind names := by
  cases h with
  | none => rfl
  | some hname => exact hname.symm

/-- The named members are the same, with symbols in the place of their names. -/
def EntryNamed (names : Symbol.Names) (m : String × α) (e : Symbol × α) : Prop :=
  names e.1 = some m.1 ∧ e.2 = m.2

section entries

variable {names : Symbol.Names} {l : List (String × α)} {l' : List (Symbol × α)}
  (h : List.Forall₂ (EntryNamed names) l l')
include h

/-- Each symbol has a name. -/
theorem isSome_of_entryNamed : ∀ f ∈ l'.map Prod.fst, (names f).isSome = true := by
  intro f hf
  obtain ⟨e, he, rfl⟩ := List.mem_map.mp hf
  obtain ⟨m, -, hname, -⟩ := forall₂_exists_right h.flip e he
  rw [hname]
  rfl

/-- The keys are the symbols of the names. -/
theorem keys_of_entryNamed :
    List.Forall₂ (fun name s => names s = some name) (l.map Prod.fst) (l'.map Prod.fst) := by
  rw [List.forall₂_map_left_iff, List.forall₂_map_right_iff]
  exact h.imp fun _ _ hme => hme.1

section injective

variable (hinjective : ∀ s s' name, names s = some name → names s' = some name → s = s')
include hinjective

/-- A symbol has one name and a name one symbol, so neither kind of key repeats alone. -/
theorem nodup_keys_iff_of_entryNamed : (l.map Prod.fst).Nodup ↔ (l'.map Prod.fst).Nodup := by
  refine List.rel_nodup ⟨fun name s name' hname hname' => ?_, fun name s s' hs hs' => ?_⟩
    (keys_of_entryNamed h)
  · exact Option.some.inj (hname.symm.trans hname')
  · exact hinjective s s' name hs hs'

/-- Looking up a symbol is looking up its name. -/
theorem lookup_of_entryNamed {f : Symbol} {name : String} (hf : names f = some name) :
    l'.lookup f = l.lookup name := by
  induction h with
  | nil => rfl
  | @cons m e l l' hme _ ih =>
      obtain ⟨n, a⟩ := m
      obtain ⟨g, b⟩ := e
      obtain ⟨hg, rfl⟩ := hme
      by_cases heq : name = n
      · obtain rfl : f = g := hinjective f g n (heq ▸ hf) hg
        rw [heq, List.lookup_cons_self, List.lookup_cons_self]
      · have hne : f ≠ g := fun hfg => by
          rw [hfg, hg] at hf
          exact heq (Option.some.inj hf).symm
        rw [List.lookup_cons, List.lookup_cons, beq_false_of_ne heq, beq_false_of_ne hne]
        exact ih

end injective

end entries

namespace CanonicalTuple

/-- The builder that a canonical form is read into, and the table that knows its names. -/
def interned (x : CanonicalTuple α) (table : SymbolTable) : TupleBuilder α × SymbolTable :=
  let tag := internTag table x.tag
  let symbols := tag.2.internAll (x.named.map Prod.fst)
  ({ tag := tag.1, positional := x.positional, named := symbols.1.zip (x.named.map Prod.snd) },
    symbols.2)

/-- The name is that of the tag or of a named member. -/
def Mentions (x : CanonicalTuple α) (name : String) : Prop :=
  x.tag = some name ∨ name ∈ x.named.map Prod.fst

/-- The table has room for the names of the form that are new to it. -/
def FitsIn (x : CanonicalTuple α) (table : SymbolTable) : Prop :=
  table.HasRoom (x.interned table).2

instance (x : CanonicalTuple α) (table : SymbolTable) : Decidable (x.FitsIn table) :=
  inferInstanceAs (Decidable (table.HasRoom _))

/-- An attempt to intern a tag. -/
theorem attempted_tryInternTag (table : SymbolTable) (tag : Option String) :
    table.Attempted (tag = some ·) (internTag table tag) (tryInternTag table tag) := by
  cases tag with
  | none => exact SymbolTable.attempted_pure table _ none
  | some name =>
      have hname := (table.attempted_tryIntern name).imp fun n hn => congrArg some hn.symm
      exact hname.andThen (SymbolTable.attempted_pure _ _ _)

/-- The names of a form are interned as far as there is room. -/
theorem attempted_tryInterned (x : CanonicalTuple α) (table : SymbolTable) :
    table.Attempted x.Mentions (x.interned table) (x.tryInterned table) := by
  have htag := (attempted_tryInternTag table x.tag).imp fun n hn => (.inl hn : x.Mentions n)
  have hnames := ((internTag table x.tag).2.attempted_tryInternAll (x.named.map Prod.fst)).imp
    fun n hn => (.inr hn : x.Mentions n)
  exact htag.andThen (hnames.andThen (SymbolTable.attempted_pure _ _ _))

/-- A table with as many numbers left as the form has names has room for them. -/
theorem fitsIn_of_size_le {x : CanonicalTuple α} {table : SymbolTable}
    (h : table.size + 1 + x.named.length ≤ SymbolTable.capacity) : x.FitsIn table := by
  have hnames := (internTag table x.tag).2.size_internAll_le (x.named.map Prod.fst)
  have htag : (internTag table x.tag).2.size ≤ table.size + 1 := by
    cases x.tag with
    | none => exact Nat.le_succ _
    | some name =>
        have hsize := table.size_intern name
        show (table.intern name).2.size ≤ _
        split_ifs at hsize <;> omega
  rw [List.length_map] at hnames
  refine .inr ?_
  show ((internTag table x.tag).2.internAll _).2.size ≤ _
  omega

/-- A form whose names are all known needs no room. -/
theorem fitsIn_of_known {x : CanonicalTuple α} {table : SymbolTable}
    (h : ∀ name, x.Mentions name → table.find? name ≠ none) : x.FitsIn table := by
  have htag : (internTag table x.tag).2 = table := by
    cases htag : x.tag with
    | none => rfl
    | some name =>
        obtain ⟨s, hs⟩ := Option.ne_none_iff_exists'.mp (h name (.inl htag))
        show (table.intern name).2 = table
        rw [SymbolTable.intern_of_find? hs]
  have hnames : (x.interned table).2 = table := by
    show ((internTag table x.tag).2.internAll _).2 = table
    rw [htag]
    exact SymbolTable.internAll_of_known fun name hname => h name (.inr hname)
  exact .inl (congrArg SymbolTable.size hnames)

/-- A form with the right count for whose names there is room is finished as a literal. -/
theorem toTuple_eq {x : CanonicalTuple α} {table : SymbolTable} (c : LayoutCache)
    (hcount : x.positional.length = x.positionalCount.toNat) (hfits : x.FitsIn table) :
    x.toTuple table c = (((x.interned table).1.finish c).1.mapError .tuple, (x.interned table).2,
      ((x.interned table).1.finish c).2) := by
  unfold toTuple
  rw [if_pos hcount, (x.attempted_tryInterned table).eq_ok hfits]

/-- A form with the right count for whose names there is no room is refused. The names before the
first one that has no number are interned, and the cache is not asked. -/
theorem toTuple_eq_error {x : CanonicalTuple α} {table : SymbolTable} (c : LayoutCache)
    (hcount : x.positional.length = x.positionalCount.toNat) (hfits : ¬x.FitsIn table) :
    ∃ left, x.toTuple table c = (.error (.intern (.overflow left.size)), left, c) ∧
      SymbolTable.capacity ≤ left.size ∧ table.Grows x.Mentions left := by
  have hattempted := x.attempted_tryInterned table
  obtain ⟨herror, hfull⟩ := hattempted.eq_error hfits
  refine ⟨_, ?_, hfull, hattempted.grows⟩
  unfold toTuple
  rw [if_pos hcount, herror]

/-- A wrong count is found before anything else is done. -/
theorem toTuple_of_count_ne {x : CanonicalTuple α} (table : SymbolTable) (c : LayoutCache)
    (hcount : x.positional.length ≠ x.positionalCount.toNat) :
    x.toTuple table c
      = (.error (.positionalCount x.positionalCount.toNat x.positional.length), table, c) := by
  rw [toTuple, if_neg hcount]

/-- A form that is read back is finished as a literal of the names that were interned. -/
theorem finish_of_toTuple {x : CanonicalTuple α} {t : Tuple α} {table table' : SymbolTable}
    {c c' : LayoutCache} (h : x.toTuple table c = (.ok t, table', c')) :
    (x.interned table).1.finish c = (.ok t, c') ∧ (x.interned table).2 = table' := by
  by_cases hcount : x.positional.length = x.positionalCount.toNat
  · by_cases hfits : x.FitsIn table
    · rw [toTuple_eq c hcount hfits] at h
      rcases hfinish : (x.interned table).1.finish c with ⟨result, c''⟩
      rw [hfinish] at h
      cases result with
      | error e => cases h
      | ok u =>
          cases h
          exact ⟨rfl, rfl⟩
    · obtain ⟨left, herror, -⟩ := toTuple_eq_error c hcount hfits
      rw [herror] at h
      cases h
  · rw [toTuple_of_count_ne table c hcount] at h
    cases h

/-- Interning the names of a form keeps a table valid. -/
theorem interned_valid (x : CanonicalTuple α) {table : SymbolTable} (h : table.Valid) :
    (x.interned table).2.Valid :=
  (h.internTag x.tag).internAll _

/-- Whatever becomes of a form, the table gains no names but those of the form. -/
theorem grows_toTuple (x : CanonicalTuple α) (table : SymbolTable) (c : LayoutCache) :
    table.Grows x.Mentions (x.toTuple table c).2.1 := by
  by_cases hcount : x.positional.length = x.positionalCount.toNat
  · by_cases hfits : x.FitsIn table
    · rw [toTuple_eq c hcount hfits]
      exact (x.attempted_tryInterned table).plain_grows
    · obtain ⟨left, herror, -, hgrows⟩ := toTuple_eq_error c hcount hfits
      rw [herror]
      exact hgrows
  · rw [toTuple_of_count_ne table c hcount]
    exact .refl table _

/-- Symbols paired up with values, when their names are the names of those values. -/
theorem forall₂_entryNamed_zip {names : Symbol.Names} {symbols : List Symbol}
    {named : List (String × α)}
    (h : List.Forall₂ (fun name s => names s = some name) (named.map Prod.fst) symbols) :
    List.Forall₂ (EntryNamed names) named (symbols.zip (named.map Prod.snd)) := by
  induction named generalizing symbols with
  | nil =>
      cases h
      exact .nil
  | cons m named ih =>
      cases h with
      | cons hname htail => exact .cons ⟨hname, rfl⟩ (ih htail)

/-- The builder holds what the form holds, under symbols with the names of the form. -/
theorem interned_named (x : CanonicalTuple α) {table : SymbolTable} (h : table.Valid) :
    table.Extends (x.interned table).2 ∧
      Option.Rel (fun name s => (x.interned table).2.name? s = some name) x.tag
        (x.interned table).1.tag ∧
      List.Forall₂ (EntryNamed (x.interned table).2.name?) x.named (x.interned table).1.named := by
  obtain ⟨hextendsTag, htag⟩ := h.internTag_named x.tag
  obtain ⟨hextends, hnamed⟩ := (h.internTag x.tag).internAll_named (x.named.map Prod.fst)
  refine ⟨hextendsTag.trans hextends, ?_, forall₂_entryNamed_zip hnamed⟩
  exact optionRel_imp htag fun _ _ _ _ hname => hextends hname

/-! ### Loading -/

/-- A tuple with the members of the builder has, under each name, what the form has there. -/
theorem fieldNamed?_of_entryNamed {table : SymbolTable} (htable : table.Valid)
    {l : List (String × α)} {l' : List (Symbol × α)}
    (h : List.Forall₂ (EntryNamed table.name?) l l') {u : Tuple α}
    (hu : ∀ f, u.field? f = l'.lookup f) (name : String) :
    u.fieldNamed? table name = l.lookup name := by
  cases hfind : table.find? name with
  | some f =>
      have hname := (htable name f).mp hfind
      rw [Tuple.fieldNamed?_of_name? htable hname, hu]
      exact lookup_of_entryNamed h (fun _ _ _ => htable.name?_injective) hname
  | none =>
      rw [Tuple.fieldNamed?, hfind, Option.bind_none, eq_comm, lookup_eq_none_iff_not_mem_keys]
      intro hmem
      obtain ⟨m, hm, rfl⟩ := List.mem_map.mp hmem
      obtain ⟨e, -, hname, -⟩ := forall₂_exists_right h m hm
      rw [(htable m.1 e.1).mpr hname] at hfind
      cases hfind

/-- The form with its named members in the order of their names. -/
def sorted (x : CanonicalTuple α) : CanonicalTuple α :=
  { x with named := sortByKey Prod.fst x.named }

/-- A form with its names in order is in order already. -/
theorem sorted_of_ascending {x : CanonicalTuple α}
    (h : x.named.Pairwise fun m n => m.1 < n.1) : x.sorted = x := by
  have hnamed : sortByKey Prod.fst x.named = x.named :=
    eq_of_perm_of_ascending (sortByKey_ascending (nodup_keys_of_ascending h)) h (sortByKey_perm _)
  rw [sorted, hnamed]

/-- A form in the order of its names describes every tuple with the members of the builder that the
form is read into. -/
theorem describes_of_hasMembers {x : CanonicalTuple α} {table : SymbolTable} (htable : table.Valid)
    (hcount : x.positional.length = x.positionalCount.toNat)
    (hnodup : (x.named.map Prod.fst).Nodup) {u : Tuple α}
    (hmembers : u.HasMembers (x.interned table).1.tag (x.interned table).1.positional
      fun f => (x.interned table).1.named.lookup f) :
    x.sorted.Describes u (x.interned table).2 := by
  obtain ⟨-, htag, hentries⟩ := x.interned_named htable
  have hpositional : u.positional = x.positional := hmembers.positional_eq
  have harity : u.arity = x.positionalCount.toNat := by
    rw [Tuple.arity, ← hmembers.wellFormed.positional_length, hpositional, hcount]
  rw [← hmembers.tag_eq] at htag
  refine ⟨?_, ⟨fun s hs => ?_, fun f hf => ?_⟩, eq_bind_of_rel htag, ?_, hpositional.symm,
    sortByKey_ascending hnodup, fun name => ?_⟩
  · rw [harity]
    exact x.positionalCount.toNat_lt_size
  · rw [hs] at htag
    obtain ⟨name, -, hname⟩ := exists_of_rel_some htag
    rw [hname]
    rfl
  · rw [← hmembers.wellFormed.isSome_field?_iff, hmembers.field?_eq,
      lookup_isSome_iff_mem_keys] at hf
    exact isSome_of_entryNamed hentries f hf
  · rw [harity, UInt32.ofNat_toNat]
    rfl
  · rw [fieldNamed?_of_entryNamed (x.interned_valid htable) hentries hmembers.field?_eq]
    exact (lookup_eq_of_perm hnodup (sortByKey_perm x.named).symm name).symm

/-- With room for its names, either a name repeats, and no tuple is made, or the form is loaded, and
in the order of its names it describes the tuple that comes out. -/
theorem toTuple_cases {x : CanonicalTuple α} {table : SymbolTable} {cache : LayoutCache}
    (htable : table.Valid) (hcache : cache.Valid)
    (hcount : x.positional.length = x.positionalCount.toNat) (hfits : x.FitsIn table) :
    (∃ f, LeastRepeated ((x.interned table).1.named.map Prod.fst) f ∧
      x.toTuple table cache
        = (.error (.tuple (.duplicateField f)), (x.interned table).2, cache)) ∨
    ((x.named.map Prod.fst).Nodup ∧ ∃ u cache',
      x.toTuple table cache = (.ok u, (x.interned table).2, cache') ∧ u.WellFormed ∧
      x.sorted.Describes u (x.interned table).2) := by
  obtain ⟨-, -, hentries⟩ := x.interned_named htable
  rw [toTuple_eq cache hcount hfits]
  rcases (x.interned table).1.finish_cases hcache with
    ⟨f, hf, hfinish⟩ | ⟨hkeys, u, cache', hfinish, -, hmembers⟩
  · refine .inl ⟨f, repeatedField?_eq_some_iff.mp hf, ?_⟩
    rw [hfinish]
    rfl
  · have hnodup := (nodup_keys_iff_of_entryNamed hentries fun _ _ _ =>
      (x.interned_valid htable).name?_injective).mpr hkeys
    refine .inr ⟨hnodup, u, cache', ?_, hmembers.wellFormed,
      describes_of_hasMembers htable hcount hnodup hmembers⟩
    rw [hfinish]
    rfl

/-- A form is loaded whenever its count is right, its names are in order and there is room for them,
and it describes the tuple that comes out. -/
theorem exists_toTuple {x : CanonicalTuple α} {table : SymbolTable} {cache : LayoutCache}
    (htable : table.Valid) (hcache : cache.Valid)
    (hcount : x.positional.length = x.positionalCount.toNat) (hfits : x.FitsIn table)
    (hascending : x.named.Pairwise fun m n => m.1 < n.1) :
    ∃ u table' cache', x.toTuple table cache = (.ok u, table', cache') ∧ u.WellFormed ∧
      x.Describes u table' ∧ table.Extends table' ∧ table'.Valid := by
  obtain ⟨hextends, -, hentries⟩ := x.interned_named htable
  rcases toTuple_cases htable hcache hcount hfits with
    ⟨f, hf, -⟩ | ⟨-, u, cache', hload, hu, hdescribes⟩
  · have hkeys := (nodup_keys_iff_of_entryNamed hentries fun _ _ _ =>
      (x.interned_valid htable).name?_injective).mp (nodup_keys_of_ascending hascending)
    exact absurd hkeys hf.not_nodup
  · rw [sorted_of_ascending hascending] at hdescribes
    exact ⟨u, _, cache', hload, hu, hdescribes, hextends, x.interned_valid htable⟩

end CanonicalTuple

/-! ### More names -/

section mono

variable {x : CanonicalTuple α} {t : Tuple α} {table table' : SymbolTable}

/-- A tuple whose symbols have names keeps them when the table grows. -/
theorem Tuple.Known.mono (h : t.Known table.name?) (hextends : table.Extends table') :
    t.Known table'.name? := by
  have hsome : ∀ s, (table.name? s).isSome = true → (table'.name? s).isSome = true := by
    intro s hs
    obtain ⟨name, hname⟩ := Option.isSome_iff_exists.mp hs
    rw [hextends hname]
    rfl
  exact ⟨fun s hs => hsome s (h.tag s hs), fun f hf => hsome f (h.fields f hf)⟩

/-- A form still describes the tuple after more names were interned. -/
theorem CanonicalTuple.Describes.mono (h : x.Describes t table) (htable : table.Valid)
    (htable' : table'.Valid) (hextends : table.Extends table') : x.Describes t table' := by
  refine ⟨h.arity_lt, h.known.mono hextends, ?_, h.count_eq, h.positional_eq, h.ascending,
    fun name => ?_⟩
  · rw [h.tag_eq]
    cases htag : t.tag with
    | none => rfl
    | some s =>
        obtain ⟨name, hname⟩ := Option.isSome_iff_exists.mp (h.known.tag s htag)
        rw [Option.bind_some, Option.bind_some, hname, hextends hname]
  · rw [h.named_eq]
    apply Option.ext
    intro a
    rw [Tuple.fieldNamed?_eq_some_iff htable, Tuple.fieldNamed?_eq_some_iff htable']
    constructor
    · rintro ⟨f, hname, hf⟩
      exact ⟨f, hextends hname, hf⟩
    · rintro ⟨f, hname, hf⟩
      -- the field had a name before, and it can have been no other
      obtain ⟨name', hname'⟩ := Option.isSome_iff_exists.mp (h.known.field_of_mem hf)
      obtain rfl : name' = name := Option.some.inj ((hextends hname').symm.trans hname)
      exact ⟨f, hname', hf⟩

end mono

/-! ### Forms that can be encoded -/

section encode

variable {x : CanonicalTuple α} {t : Tuple α} {table : SymbolTable} {c : Codec α}

/-- The name of a symbol stands among the names of the table. -/
theorem SymbolTable.mem_names_of_name? {s : Symbol} {name : String}
    (h : table.name? s = some name) : name ∈ table.names.toList := by
  have hget : table.names.toList[s.id]? = some name := by
    rw [Array.getElem?_toList]
    exact h
  exact List.mem_of_getElem? hget

namespace CanonicalTuple.Describes

/-- A named member of the form is a member of the tuple, under a name of the table. -/
theorem mem_named (h : x.Describes t table) (htable : table.Valid) {m : String × α}
    (hm : m ∈ x.named) : m.1 ∈ table.names.toList ∧ m.2 ∈ t.members := by
  have hlookup : x.named.lookup m.1 = some m.2 :=
    (lookup_eq_some_iff_mem (nodup_keys_of_ascending h.ascending)).mpr hm
  rw [h.named_eq, Tuple.fieldNamed?_eq_some_iff htable] at hlookup
  obtain ⟨f, hname, hf⟩ := hlookup
  exact ⟨SymbolTable.mem_names_of_name? hname, Tuple.mem_members_of_field? hf⟩

/-- There are no more named members than names in the table. -/
theorem length_named_le (h : x.Describes t table) (htable : table.Valid) :
    x.named.length ≤ table.size := by
  have hsubset : x.named.map Prod.fst ⊆ table.names.toList := by
    intro name hname
    obtain ⟨m, hm, rfl⟩ := List.mem_map.mp hname
    exact (h.mem_named htable hm).1
  have hle := (List.subperm_of_subset (nodup_keys_of_ascending h.ascending) hsubset).length_le
  rwa [List.length_map, Array.length_toList] at hle

/-- The form of a tuple can be encoded when the members and the names of the table can. -/
theorem encodable (h : x.Describes t table) (ht : t.WellFormed) (htable : table.Valid)
    (hsize : table.size < UInt32.size)
    (hnames : ∀ name ∈ table.names.toList, (Utf8.encode name).length < UInt64.size)
    (hmembers : ∀ a ∈ t.members, c.ReadsBack a) : c.Encodable x := by
  have hwords : UInt32.size < UInt64.size := by decide
  have hname : ∀ name ∈ table.names.toList, Codec.string.ReadsBack name :=
    fun name hmem => Codec.readsBack_string (hnames name hmem)
  refine ⟨fun name htag => hname name ?_, ?_, fun a ha => hmembers a ?_, ?_, fun m hm => ?_⟩
  · rw [h.tag_eq] at htag
    obtain ⟨s, -, hs⟩ := Option.bind_eq_some_iff.mp htag
    exact SymbolTable.mem_names_of_name? hs
  · have hlength : x.positional.length = t.arity := by
      rw [h.positional_eq, ht.positional_length, Tuple.arity]
    rw [hlength]
    exact h.arity_lt.trans hwords
  · rw [h.positional_eq] at ha
    exact Tuple.mem_members_of_positional ha
  · exact ((h.length_named_le htable).trans_lt hsize).trans hwords
  · obtain ⟨hmem, hmember⟩ := h.mem_named htable hm
    exact ⟨hname m.1 hmem, hmembers m.2 hmember⟩

/-- The names of the form are names of the table, which needs no room for them. -/
theorem fitsIn (h : x.Describes t table) (htable : table.Valid) : x.FitsIn table := by
  refine CanonicalTuple.fitsIn_of_known fun name hname hnone => ?_
  refine htable.find?_eq_none_iff.mp hnone ?_
  rcases hname with htag | hmem
  · rw [h.tag_eq] at htag
    obtain ⟨s, -, hs⟩ := Option.bind_eq_some_iff.mp htag
    exact SymbolTable.mem_names_of_name? hs
  · obtain ⟨m, hm, rfl⟩ := List.mem_map.mp hmem
    exact (h.mem_named htable hm).1

/-- The form declares as many positional members as it holds. -/
theorem length_positional (h : x.Describes t table) (ht : t.WellFormed) :
    x.positional.length = x.positionalCount.toNat := by
  rw [h.positional_eq, h.count_eq, UInt32.toNat_ofNat_of_lt' h.arity_lt, ht.positional_length,
    Tuple.arity]

end CanonicalTuple.Describes

end encode

/-! ### From one session to another -/

namespace Tuple

/-- A tuple that is written in one session is loaded in any other one that has room for its names,
with the same tag, the same positional members and the same members under each field name, whatever
the other session has interned and cached. There it has the same bytes again. The session that wrote
it has room, and there it is equal to the tuple that was written. -/
theorem exists_load_encode [BEq α] {c : Codec α} {t : Tuple α} {source target : SymbolTable}
    {cache : LayoutCache} (ht : t.WellFormed) (harity : t.arity < UInt32.size)
    (hmembers : ∀ a ∈ t.members, c.ReadsBack a) (hsource : source.Valid)
    (hsize : source.size < UInt32.size)
    (hnames : ∀ name ∈ source.names.toList, (Utf8.encode name).length < UInt64.size)
    (hknown : t.Known source.name?) (htarget : target.Valid) (hcache : cache.Valid) :
    ∃ x, t.toCanonical source.name? = .ok x ∧ c.decode (c.encode x) = .ok x ∧
      (target = source → x.FitsIn target) ∧
      (x.FitsIn target → ∃ u target' cache', x.toTuple target cache = (.ok u, target', cache') ∧
        u.WellFormed ∧ u.Known target'.name? ∧
        u.tag.bind target'.name? = t.tag.bind source.name? ∧ u.positional = t.positional ∧
        (∀ name, u.fieldNamed? target' name = t.fieldNamed? source name) ∧
        (u.toCanonical target'.name?).map c.encode = .ok (c.encode x) ∧
        (target = source → (∀ a ∈ t.members, (a == a) = true) → (u == t) = true)) := by
  obtain ⟨x, hx⟩ := (exists_toCanonical_iff hsource ht hknown).mpr harity
  have hdescribes := describes_of_toCanonical hsource ht hx
  refine ⟨x, hx, (hdescribes.encodable ht hsource hsize hnames hmembers).decode_encode,
    fun heq => ?_, fun hfits => ?_⟩
  · rw [heq]
    exact hdescribes.fitsIn hsource
  obtain ⟨u, target', cache', hload, hu, hloaded, hextends, htarget'⟩ :=
    CanonicalTuple.exists_toTuple htarget hcache (hdescribes.length_positional ht) hfits
      hdescribes.ascending
  refine ⟨u, target', cache', hload, hu, hloaded.known, ?_, ?_, fun name => ?_, ?_, ?_⟩
  · rw [← hloaded.tag_eq, hdescribes.tag_eq]
  · rw [← hloaded.positional_eq, hdescribes.positional_eq]
  · rw [← hloaded.named_eq, hdescribes.named_eq]
  · rw [(toCanonical_eq_ok_iff htarget' hu).mpr hloaded]
    rfl
  · rintro rfl hrefl
    -- one form describes both tuples in the table that is left
    have hdescribes' := hdescribes.mono hsource htarget' hextends
    obtain ⟨htag, hpositional, hfield⟩ :=
      (hloaded.eq_iff htarget' hu ht hdescribes').mp rfl
    rw [beq_iff hu ht]
    refine ⟨htag, ?_, fun f => ?_⟩
    · rw [hpositional]
      exact List.forall₂_same.mpr fun a ha => hrefl a (mem_members_of_positional ha)
    · rw [hfield]
      exact optionRel_refl fun a ha => hrefl a (mem_members_of_field? ha)

/-- A tagged tuple of one positional member and two named ones, in the session that writes it. -/
def writtenPoint : Tuple Int64 where
  shared := ⟨0, 0, { Layout.ascendingPair 1 with tag := some ⟨3⟩ }⟩
  positional := [.ofNat 7]
  values := [.ofNat 10, .ofNat 20]

/-- The names in the session that writes. -/
def writingNames : SymbolTable := (SymbolTable.empty.internAll ["y", "x", "Point"]).2

/-- The names in the session that reads, in another order and among others. -/
def readingNames : SymbolTable := (SymbolTable.empty.internAll ["x", "z", "y", "Point"]).2

/-- A cache that declares the shape of the point the other way around. -/
def readingCache : LayoutCache :=
  ((LayoutCache.empty 1 true).construct 1 [⟨1⟩, ⟨3⟩] (some ⟨4⟩)).2

/-- The point is loaded with its tag and its members. -/
theorem exists_load_encode_of_point :
    ∃ x u target' cache', writtenPoint.toCanonical writingNames.name? = .ok x ∧
      Codec.int64.decode (Codec.int64.encode x) = .ok x ∧
      x.toTuple readingNames readingCache = (.ok u, target', cache') ∧
      u.tag.bind target'.name? = some "Point" ∧ u.positional = [.ofNat 7] ∧
      u.fieldNamed? target' "x" = some (.ofNat 20) ∧ u.fieldNamed? target' "z" = none := by
  have ht : writtenPoint.WellFormed := ⟨rfl, rfl⟩
  have hmembers : ∀ a ∈ writtenPoint.members, Codec.int64.ReadsBack a :=
    fun a _ => Codec.readsBack_int64 a
  have hsource : writingNames.Valid := SymbolTable.valid_empty.internAll _
  have hnames : ∀ name ∈ writingNames.names.toList, (Utf8.encode name).length < UInt64.size := by
    decide
  have hknown : writtenPoint.Known writingNames.name? :=
    ⟨fun s hs => by cases hs; decide, by decide⟩
  have htarget : readingNames.Valid := SymbolTable.valid_empty.internAll _
  have hcache : readingCache.Valid := (LayoutCache.valid_empty 1 true).construct _ _ _
  obtain ⟨x, hform, hdecode, -, hloads⟩ :=
    exists_load_encode ht (by decide) hmembers hsource (by decide) hnames hknown htarget hcache
  -- the form has no more fields than the session that wrote it has names
  have hlength := (describes_of_toCanonical hsource ht hform).length_named_le hsource
  have hsizes : readingNames.size + 1 + writingNames.size ≤ SymbolTable.capacity := by decide
  have hroom : readingNames.size + 1 + x.named.length ≤ SymbolTable.capacity :=
    (Nat.add_le_add_left hlength _).trans hsizes
  obtain ⟨u, target', cache', hload, -, -, htag, hpositional, hfield, -⟩ :=
    hloads (CanonicalTuple.fitsIn_of_size_le hroom)
  refine ⟨x, u, target', cache', hform, hdecode, hload, ?_, hpositional, ?_, ?_⟩
  · rw [htag]
    decide
  · have hx : writingNames.find? "x" = some ⟨2⟩ := by decide
    rw [hfield, fieldNamed?, hx, Option.bind_some, field?_eq_lookup]
    decide
  · have hz : writingNames.find? "z" = none := by decide
    rw [hfield, fieldNamed?, hz, Option.bind_none]

end Tuple

end TaggedTuple
