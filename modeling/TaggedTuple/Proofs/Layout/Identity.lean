import TaggedTuple.Proofs.Layout.Slots

/-!
# One identity of layouts

A layout is identified in four ways: by its shape, by its key, by the key of its declaration, and by
what it feeds to a hash function. All four say the same (`Layout.identities_coincide`). Unless the
program stops at a slot that is no machine word, a declaration has a layout exactly when it has a
key, both computations report the same field otherwise, and the layout of a declaration has the key
of the declaration. Two layouts have the same shape, the same key and the same feed exactly when
they agree on the positional count, the tag and the set of fields.

Every layout is the one that its own declaration builds (`Layout.build_self`), so it makes no
difference how a layout came about. What does make a difference is that the layout of a declaration
takes sums and its key does not: at the end of the range the program stops at the one and answers
with the other (`Layout.stop_beside_key`).
-/

namespace TaggedTuple

/-- A symbol is its number. -/
theorem Symbol.eq_of_id_eq {f g : Symbol} (h : f.id = g.id) : f = g := congrArg Symbol.mk h

namespace Layout

/-! ### Building again -/

/-- Every layout is built by its own declaration. -/
theorem build_self (l : Layout) : build l.positional l.fields l.tag = .ok l := by
  have hindex : l.index = ⟨(sortByKey Prod.fst (l.fields.zipIdx l.positional)).toArray⟩ :=
    Except.ok.inj (l.index_built.symm.trans (FieldIndex.build_eq_ok l.fields_nodup l.positional))
  have hdeclare : declare l.positional l.fields_nodup l.tag = l := by
    rw [declare, Layout.mk.injEq]
    exact ⟨rfl, rfl, rfl, hindex.symm⟩
  rw [build_eq_ok l.fields_nodup, hdeclare]

/-- The untagged layout without fields is built by the empty declaration, without a stop. -/
theorem tryBuild_nil (n : Nat) : tryBuild n [] none = some (.ok (ofPositional n)) := by
  rw [tryBuild_eq_build (slotsAreWords_nil n)]
  exact congrArg some (build_self (ofPositional n))

/-- A declaration either has a key, and no layout but one with this key, or it names a field twice.
Then the least such field is the error of the key, and no other error comes from the layout. -/
theorem key_build_and_tryBuild_cases (positional : Nat) (fields : List Symbol)
    (tag : Option Symbol) :
    (fields.Nodup ∧ ∃ key, LayoutKey.build positional fields tag = .ok key ∧
      ∀ answer, tryBuild positional fields tag = some answer → ∃ l, answer = .ok l ∧
        l.key = key ∧ l.positional = positional ∧ l.fields = fields ∧ l.tag = tag) ∨
    ∃ f, LeastRepeated fields f ∧
      LayoutKey.build positional fields tag = .error (.duplicateField f) ∧
      ∀ answer, tryBuild positional fields tag = some answer →
        answer = .error (.duplicateField f) := by
  have hbuild : ∀ answer, tryBuild positional fields tag = some answer →
      answer = build positional fields tag := fun answer h => by
    rw [tryBuild, Option.ite_none_right_eq_some] at h
    exact (Option.some.inj h.2).symm
  cases hf : repeatedField? fields with
  | some f =>
      refine .inr ⟨f, repeatedField?_eq_some_iff.mp hf, LayoutKey.build_eq_error hf positional tag,
        fun answer h => ?_⟩
      rw [hbuild answer h, build_eq_error hf]
  | none =>
      have hnodup := repeatedField?_eq_none_iff.mp hf
      refine .inl ⟨hnodup, _, LayoutKey.build_eq_ok hnodup positional tag, fun answer h => ?_⟩
      exact ⟨declare positional hnodup tag, by rw [hbuild answer h, build_eq_ok hnodup], rfl, rfl,
        rfl, rfl⟩

/-! ### Agreement of two layouts -/

section agreement

variable {a b : Layout}

/-- The fields are declared in some order and none of them twice, so only their set matters. -/
theorem fields_perm_iff : a.fields.Perm b.fields ↔ ∀ f, f ∈ a.fields ↔ f ∈ b.fields :=
  List.perm_ext_iff_of_nodup a.fields_nodup b.fields_nodup

/-- Layouts have the same shape when they have the same key. -/
theorem sameShape_iff_key_eq : a.sameShape b = true ↔ a.key = b.key := by
  rw [sameShape_iff, key_eq_iff]

/-- A key is the number of positional members, the tag and the set of fields. -/
theorem key_eq_iff_sameFields :
    a.key = b.key ↔
      a.positional = b.positional ∧ a.tag = b.tag ∧ ∀ f, f ∈ a.fields ↔ f ∈ b.fields := by
  rw [key_eq_iff, fields_perm_iff]

end agreement

/-! ### Feeds -/

/-- The feed of a key, item by item. -/
theorem hashFeed_eq (l : Layout) :
    l.hashFeed = .number l.key.positional ::
      (tagFeed l.key.tag ++ l.key.fields.map fun f => .number f.id) := by
  rw [List.map_eq_flatMap]
  rfl

/-- The feed of a tag shows where it ends. -/
theorem tagFeed_append_inj {tag tag' : Option Symbol} {feed feed' : HashFeed}
    (h : tagFeed tag ++ feed = tagFeed tag' ++ feed') : tag = tag' ∧ feed = feed' := by
  cases tag with
  | none =>
      cases tag' with
      | none => exact ⟨rfl, List.append_cancel_left h⟩
      | some s => simp [tagFeed, HashFeed.ofNat] at h
  | some s =>
      cases tag' with
      | none => simp [tagFeed, HashFeed.ofNat] at h
      | some s' =>
          obtain ⟨hid, hfeed⟩ : (s.id = s'.id) ∧ feed = feed' := by
            simpa [tagFeed, HashFeed.ofNat, Int.ofNat_inj] using h
          exact ⟨congrArg some (Symbol.eq_of_id_eq hid), hfeed⟩

/-- Layouts with different keys feed different sequences. -/
theorem hashFeed_eq_iff {a b : Layout} : a.hashFeed = b.hashFeed ↔ a.key = b.key := by
  refine ⟨fun h => ?_, fun h => by rw [hashFeed_eq, hashFeed_eq, h]⟩
  rw [hashFeed_eq, hashFeed_eq, List.cons.injEq] at h
  obtain ⟨hpositional, hrest⟩ := h
  obtain ⟨htag, hfields⟩ := tagFeed_append_inj hrest
  have hinjective : Function.Injective fun f : Symbol => HashItem.number f.id := by
    intro f g hfg
    exact Symbol.eq_of_id_eq (Int.ofNat_inj.mp (HashItem.number.inj hfg))
  have hcount : a.key.positional = b.key.positional :=
    Int.ofNat_inj.mp (HashItem.number.inj hpositional)
  have hsorted : a.key.fields = b.key.fields := List.map_injective_iff.mpr hinjective hfields
  simp only [key, LayoutKey.mk.injEq]
  exact ⟨hcount, htag, hsorted⟩

/-! ### The law -/

/-- All identities of layouts coincide, whether they are read off a declaration or off a layout, as
far as the program comes. It stops exactly at declarations with fields that take more slots than
there are machine words. -/
theorem identities_coincide (positional : Nat) (fields : List Symbol) (tag : Option Symbol)
    (a b : Layout) :
    (tryBuild positional fields tag = none ↔
      fields ≠ [] ∧ slotLimit < positional + fields.length) ∧
    ((fields.Nodup ∧ ∃ key, LayoutKey.build positional fields tag = .ok key ∧
      ∀ answer, tryBuild positional fields tag = some answer → ∃ l, answer = .ok l ∧
        l.key = key ∧ l.positional = positional ∧ l.fields = fields ∧ l.tag = tag) ∨
    ∃ f, LeastRepeated fields f ∧
      LayoutKey.build positional fields tag = .error (.duplicateField f) ∧
      ∀ answer, tryBuild positional fields tag = some answer →
        answer = .error (.duplicateField f)) ∧
    tryBuild positional [] none = some (.ok (ofPositional positional)) ∧
    build a.positional a.fields a.tag = .ok a ∧
    (a.sameShape b = true ↔ a.key = b.key) ∧
    (a.key = b.key ↔
      a.positional = b.positional ∧ a.tag = b.tag ∧ ∀ f, f ∈ a.fields ↔ f ∈ b.fields) ∧
    (a.hashFeed = b.hashFeed ↔ a.key = b.key) :=
  ⟨tryBuild_eq_none_iff, key_build_and_tryBuild_cases positional fields tag,
    tryBuild_nil positional, a.build_self, sameShape_iff_key_eq, key_eq_iff_sameFields,
    hashFeed_eq_iff⟩

/-- Two fields behind as many positional members as there are words but one. The declaration has a
key, or an error if the fields are one, but the program stops before it has a layout. -/
theorem stop_beside_key :
    (tryBuild (slotLimit - 1) [⟨1⟩, ⟨2⟩] none = none ∧
      LayoutKey.build (slotLimit - 1) [⟨1⟩, ⟨2⟩] none
        = .ok ⟨slotLimit - 1, none, [⟨1⟩, ⟨2⟩]⟩) ∧
    tryBuild (slotLimit - 1) [⟨1⟩, ⟨1⟩] none = none ∧
      LayoutKey.build (slotLimit - 1) [⟨1⟩, ⟨1⟩] none = .error (.duplicateField ⟨1⟩) :=
  ⟨⟨tryBuild_eq_none_iff.mpr ⟨List.cons_ne_nil _ _, by decide⟩, by rfl⟩,
    tryBuild_eq_none_iff.mpr ⟨List.cons_ne_nil _ _, by decide⟩, by rfl⟩

end Layout

end TaggedTuple
