import TaggedTuple.Proofs.Association
import TaggedTuple.Proofs.Layout.Slots

/-!
# What a layout cache answers

A cache is valid when it keeps each layout under the layout's own key (`LayoutCache.Valid`). The
empty cache is valid and every request leaves a valid cache behind. Relative to that invariant a
request has one of two outcomes in either mode (`LayoutCache.construct_cases`): the declaration
names a field twice and the least such field is the error, or the answer is a layout with the
requested shape. Only the order in which that layout declares its fields is left open.

The program serves a request in this way if the slots of the fields are machine words
(`LayoutCache.tryConstruct_eq_construct`). If they are not, it answers what it finds without
building a layout, if anything, and the cache stays as it was
(`LayoutCache.tryConstruct_of_not_words`).
-/

namespace TaggedTuple

namespace LayoutCache

/-- Every layout is kept under its own key. -/
def Valid (c : LayoutCache) : Prop := ∀ e ∈ c.entries, e.2.layout.key = e.1

/-- A new cache is valid. -/
theorem valid_empty (id : Nat) (canonicalize : Bool) : (empty id canonicalize).Valid := by
  intro e he
  cases he

variable {c : LayoutCache}

/-- Issuing a layout keeps a cache valid. -/
theorem Valid.issue (h : c.Valid) (layout : Layout) : (c.issue layout).2.Valid := h

/-- Keeping a layout under its own key keeps a cache valid. -/
theorem Valid.register (h : c.Valid) {key : LayoutKey} {layout : Layout}
    (hkey : layout.key = key) : (c.register key layout).2.Valid := by
  intro e he
  rcases List.mem_append.mp he with he | he
  · exact h e he
  · obtain rfl := List.mem_singleton.mp he
    exact hkey

/-- What a valid cache keeps under a key has that key. -/
theorem Valid.key_of_lookup (h : c.Valid) {key : LayoutKey} {shared : SharedLayout}
    (hlookup : c.entries.lookup key = some shared) : shared.layout.key = key :=
  h (key, shared) (mem_of_lookup_eq_some hlookup)

/-- A request that names a field twice fails and leaves the cache as it was. -/
theorem construct_eq_error {fields : List Symbol} {f : Symbol} (h : repeatedField? fields = some f)
    (c : LayoutCache) (positional : Nat) (tag : Option Symbol) :
    c.construct positional fields tag = (.error (.duplicateField f), c) := by
  unfold construct
  split_ifs
  · simp only [LayoutKey.build_eq_error h]
  · simp only [Layout.build_eq_error h]

/-- A canonicalizing cache answers with the instance that it keeps, or registers the declaration. -/
theorem construct_of_canonicalize (hmode : c.canonicalize = true) {fields : List Symbol}
    (h : fields.Nodup) (positional : Nat) (tag : Option Symbol) :
    c.construct positional fields tag =
      match c.entries.lookup (Layout.declare positional h tag).key with
      | some shared => (.ok shared, c)
      | none =>
        (.ok (c.register (Layout.declare positional h tag).key
            (Layout.declare positional h tag)).1,
          (c.register (Layout.declare positional h tag).key
            (Layout.declare positional h tag)).2) := by
  have hkey := LayoutKey.build_eq_ok h positional tag
  have hlayout := Layout.build_eq_ok h positional tag
  cases hlookup : c.entries.lookup (Layout.declare positional h tag).key with
  | some shared => simp only [construct, hmode, if_true, hkey, hlookup]
  | none => simp only [construct, hmode, if_true, hkey, hlayout, hlookup]

/-- A cache that does not canonicalize issues the declaration. -/
theorem construct_of_not_canonicalize (hmode : c.canonicalize = false) {fields : List Symbol}
    (h : fields.Nodup) (positional : Nat) (tag : Option Symbol) :
    c.construct positional fields tag =
      (.ok (c.issue (Layout.declare positional h tag)).1,
        (c.issue (Layout.declare positional h tag)).2) := by
  unfold construct
  rw [if_neg (by rw [hmode]; exact Bool.false_ne_true), Layout.build_eq_ok h]

/-- A request without repeated fields is answered by a layout with the requested shape. -/
theorem Valid.exists_construct (hc : c.Valid) {fields : List Symbol} (h : fields.Nodup)
    (positional : Nat) (tag : Option Symbol) :
    ∃ shared c', c.construct positional fields tag = (.ok shared, c') ∧
      shared.layout.HasShape positional fields tag ∧ c'.Valid := by
  have hshape := Layout.hasShape_declare positional h tag
  cases hmode : c.canonicalize with
  | false =>
      rw [construct_of_not_canonicalize hmode h]
      exact ⟨_, _, rfl, hshape, hc.issue _⟩
  | true =>
      rw [construct_of_canonicalize hmode h]
      cases hlookup : c.entries.lookup (Layout.declare positional h tag).key with
      | some shared =>
          exact ⟨shared, c, rfl, Layout.key_eq_key_declare_iff.mp (hc.key_of_lookup hlookup), hc⟩
      | none => exact ⟨_, _, rfl, hshape, hc.register rfl⟩

/-- The two outcomes of a request. -/
theorem Valid.construct_cases (hc : c.Valid) (positional : Nat) (fields : List Symbol)
    (tag : Option Symbol) :
    (∃ f, repeatedField? fields = some f ∧
      c.construct positional fields tag = (.error (.duplicateField f), c)) ∨
    (fields.Nodup ∧ ∃ shared c', c.construct positional fields tag = (.ok shared, c') ∧
      shared.layout.HasShape positional fields tag ∧ c'.Valid) := by
  cases hf : repeatedField? fields with
  | some f => exact .inl ⟨f, rfl, construct_eq_error hf c positional tag⟩
  | none =>
      have hnodup := repeatedField?_eq_none_iff.mp hf
      exact .inr ⟨hnodup, hc.exists_construct hnodup positional tag⟩

/-- What is answered has the requested shape. -/
theorem Valid.hasShape_of_construct (hc : c.Valid) {positional : Nat} {fields : List Symbol}
    {tag : Option Symbol} {shared : SharedLayout}
    (h : (c.construct positional fields tag).1 = .ok shared) :
    fields.Nodup ∧ shared.layout.HasShape positional fields tag := by
  rcases hc.construct_cases positional fields tag with
    ⟨f, -, herror⟩ | ⟨hnodup, shared', c', hok, hshape, -⟩
  · rw [herror] at h
    cases h
  · rw [hok] at h
    cases h
    exact ⟨hnodup, hshape⟩

/-- Every request leaves a valid cache behind. -/
theorem Valid.construct (hc : c.Valid) (positional : Nat) (fields : List Symbol)
    (tag : Option Symbol) : (c.construct positional fields tag).2.Valid := by
  rcases hc.construct_cases positional fields tag with
    ⟨f, -, herror⟩ | ⟨-, shared, c', hok, -, hc'⟩
  · rw [herror]
    exact hc
  · rw [hok]
    exact hc'

/-- The untagged layout without fields is always to be had. -/
theorem Valid.exists_positional (hc : c.Valid) (count : Nat) :
    ∃ shared c', c.positional count = (shared, c') ∧ shared.layout.HasShape count [] none ∧
      c'.Valid := by
  obtain ⟨shared, c', hconstruct, hshape, hc'⟩ := hc.exists_construct List.nodup_nil count none
  exact ⟨shared, c', by simp only [positional, hconstruct], hshape, hc'⟩

/-! ### Where the program stops -/

section words

variable {positional : Nat} {fields : List Symbol}

/-- The program serves a request for slots that are words. -/
theorem tryConstruct_eq_construct (h : Layout.slotsAreWords positional fields = true)
    (c : LayoutCache) (tag : Option Symbol) :
    c.tryConstruct positional fields tag =
      (some (c.construct positional fields tag).1, (c.construct positional fields tag).2) := by
  unfold tryConstruct construct
  rw [Layout.tryBuild_eq_build h]
  cases c.canonicalize with
  | false =>
      rw [if_neg Bool.false_ne_true, if_neg Bool.false_ne_true]
      cases Layout.build positional fields tag <;> rfl
  | true =>
      rw [if_pos rfl, if_pos rfl]
      cases LayoutKey.build positional fields tag with
      | error e => rfl
      | ok key =>
          dsimp only
          cases c.entries.lookup key with
          | some shared => rfl
          | none => cases Layout.build positional fields tag <;> rfl

/-- What a cache answers to a request without building a layout. -/
def kept? (c : LayoutCache) (positional : Nat) (fields : List Symbol) (tag : Option Symbol) :
    Option (Except TupleError SharedLayout) :=
  if c.canonicalize then
    match LayoutKey.build positional fields tag with
    | .error e => some (.error e)
    | .ok key => (c.entries.lookup key).map .ok
  else none

/-- The program stops at a request for slots that are no words, unless the answer takes no slots. -/
theorem tryConstruct_of_not_words (h : Layout.slotsAreWords positional fields = false)
    (c : LayoutCache) (tag : Option Symbol) :
    c.tryConstruct positional fields tag = (c.kept? positional fields tag, c) := by
  unfold tryConstruct kept?
  rw [Layout.tryBuild_eq_none h]
  split_ifs
  · cases LayoutKey.build positional fields tag with
    | error e => rfl
    | ok key =>
        dsimp only
        cases c.entries.lookup key <;> rfl
  · rfl

/-- An answer that takes no slots is the one of a program that does not stop. -/
theorem construct_of_kept? {c : LayoutCache} {tag : Option Symbol}
    {answer : Except TupleError SharedLayout} (h : c.kept? positional fields tag = some answer) :
    c.construct positional fields tag = (answer, c) := by
  unfold kept? at h
  unfold construct
  split_ifs at h ⊢
  cases hkey : LayoutKey.build positional fields tag with
  | error e =>
      rw [hkey] at h
      cases h
      rfl
  | ok key =>
      rw [hkey] at h
      obtain ⟨shared, hlookup, rfl⟩ := Option.map_eq_some_iff.mp h
      simp only [hlookup]

end words

/-! ### What is kept -/

/-- A request registers nothing if it fails, if the cache does not canonicalize, or if the shape is
kept already. -/
theorem Valid.entries_construct_eq_iff (hc : c.Valid) (positional : Nat) (fields : List Symbol)
    (tag : Option Symbol) :
    (c.construct positional fields tag).2.entries = c.entries ↔
      ¬fields.Nodup ∨ c.canonicalize = false ∨
        ∃ e ∈ c.entries, e.2.layout.HasShape positional fields tag := by
  cases hf : repeatedField? fields with
  | some f =>
      rw [construct_eq_error hf]
      exact iff_of_true rfl (.inl (not_nodup_of_repeatedField? hf))
  | none =>
      have hnodup := repeatedField?_eq_none_iff.mp hf
      cases hmode : c.canonicalize with
      | false =>
          rw [construct_of_not_canonicalize hmode hnodup]
          exact iff_of_true rfl (.inr (.inl rfl))
      | true =>
          rw [construct_of_canonicalize hmode hnodup]
          cases hlookup : c.entries.lookup (Layout.declare positional hnodup tag).key with
          | some shared =>
              refine iff_of_true rfl (.inr (.inr ⟨_, mem_of_lookup_eq_some hlookup, ?_⟩))
              exact Layout.key_eq_key_declare_iff.mp (hc.key_of_lookup hlookup)
          | none =>
              refine iff_of_false (fun h => ?_) ?_
              · exact List.cons_ne_nil _ _ (List.append_right_eq_self.mp h)
              · rintro (h | h | ⟨e, he, hshape⟩)
                · exact h hnodup
                · cases h
                · have hkey : e.2.layout.key = (Layout.declare positional hnodup tag).key :=
                    Layout.key_eq_key_declare_iff.mpr hshape
                  rw [hc e he] at hkey
                  rw [lookup_eq_none_iff_not_mem_keys, ← hkey] at hlookup
                  exact hlookup (List.mem_map_of_mem he)

/-- Whatever the order in which fields are asked for, a cache may answer with any other order of
them, namely the one in which it was asked for them first. -/
theorem exists_construct_fields_eq {fields declared : List Symbol} (h : declared.Nodup)
    (hperm : declared.Perm fields) (positional : Nat) (tag : Option Symbol) :
    ∃ c : LayoutCache, c.Valid ∧ ∃ shared, (c.construct positional fields tag).1 = .ok shared ∧
      shared.layout.fields = declared := by
  let l := Layout.declare positional h tag
  have hkey : l.key = (Layout.declare positional (hperm.nodup_iff.mp h) tag).key :=
    Layout.key_eq_key_declare_iff.mpr ⟨rfl, rfl, hperm⟩
  refine ⟨((empty 0 true).register l.key l).2, (valid_empty 0 true).register rfl,
    ((empty 0 true).register l.key l).1, ?_, rfl⟩
  have hlookup : ((empty 0 true).register l.key l).2.entries.lookup l.key
      = some ((empty 0 true).register l.key l).1 := List.lookup_cons_self
  rw [construct_of_canonicalize rfl (hperm.nodup_iff.mp h), ← hkey, hlookup]

end LayoutCache

end TaggedTuple
