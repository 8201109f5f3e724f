import TaggedTuple.Proofs.Ty.Locality
import TaggedTuple.Proofs.Ty.Orientation
import TaggedTuple.Proofs.Ty.Spelling

/-!
# Reading a type off its text

The text of a type tells the type up to mutual subtyping, with one exception: the empty union and a
tuple type `Any()` have the same text (`Ty.Collide`). The proof follows the text. A type is read one
alternative at a time (`Ty.readBack_of_alternatives`), an alternative word by word: the head, then
the members between the parentheses (`Ty.readBack_of_isSingle`). What follows a type, a comma or a
closing parenthesis, never continues it, hence the statements speak of texts with a rest
(`Ty.ReadBack`). The induction goes over the members of the type that is read (`Ty.readBack`).
-/

namespace TaggedTuple

/-! ### Members one by one -/

/-- Two members are both positional or belong to the same field, and their values are related. -/
inductive TupleEntry.Rel {α β : Type} (r : α → β → Prop) : TupleEntry α → TupleEntry β → Prop
  | positional {a : α} {b : β} (h : r a b) : Rel r (.positional a) (.positional b)
  | named {f : Symbol} {a : α} {b : β} (h : r a b) : Rel r (.named f a) (.named f b)

/-- Tuples whose members are related one by one have related positional members and the same
fields. -/
theorem Tuple.forall₂_entries {α β : Type} {r : α → β → Prop} {t : Tuple α} {u : Tuple β}
    (h : List.Forall₂ (TupleEntry.Rel r) t.entries u.entries) :
    List.Forall₂ r t.positional u.positional ∧
      List.Forall₂ (fun x y => x.1 = y.1 ∧ r x.2 y.2) t.named u.named := by
  unfold entries at h
  generalize t.positional = as at h ⊢
  generalize u.positional = bs at h ⊢
  induction as generalizing bs with
  | nil =>
      cases bs with
      | nil =>
          rw [List.map_nil, List.nil_append, List.map_nil, List.nil_append,
            List.forall₂_map_left_iff, List.forall₂_map_right_iff] at h
          exact ⟨.nil, h.imp fun ⟨f, a⟩ ⟨g, b⟩ hab => by
            cases hab with
            | named hab => exact ⟨rfl, hab⟩⟩
      | cons b bs =>
          generalize t.named = xs at h
          cases xs with
          | nil => cases h
          | cons x xs => cases h with
            | cons hab _ => cases hab
  | cons a as ih =>
      cases bs with
      | nil =>
          generalize u.named = ys at h
          cases ys with
          | nil => cases h
          | cons y ys => cases h with
            | cons hab _ => cases hab
      | cons b bs =>
          cases h with
          | cons hab h =>
              obtain ⟨hpositional, hnamed⟩ := ih bs h
              cases hab with
              | positional hab => exact ⟨.cons hab hpositional, hnamed⟩

namespace Ty

variable {names : Symbol.Names}

/-- Each of the two types is a subtype of the other one, whatever the policy. -/
def MutualSubtypes (a b : Ty) : Prop :=
  ∀ policy, isSubtype policy a b = true ∧ isSubtype policy b a = true

/-- At some place one type has an empty union and the other one a tuple type with the tag `Any` and
without members. -/
inductive Collide (names : Symbol.Names) : Ty → Ty → Prop
  | left {t : Tuple Ty} (members : t.entries = []) (tag : t.tag.bind names = some "Any") :
    Collide names (.union []) (.tuple t)
  | right {t : Tuple Ty} (members : t.entries = []) (tag : t.tag.bind names = some "Any") :
    Collide names (.tuple t) (.union [])
  | member {t u : Tuple Ty} {key : TupleKey} {a b : Ty} (left : t.getKey key = .ok a)
    (right : u.getKey key = .ok b) (onward : Collide names a b) :
    Collide names (.tuple t) (.tuple u)
  | alternative {a b x y : Ty} {i : Nat} (left : a.alternatives[i]? = some x)
    (right : b.alternatives[i]? = some y) (onward : Collide names x y) : Collide names a b

/-- What two types with the same text may be to each other. -/
def CollideOrMutual (names : Symbol.Names) (a b : Ty) : Prop :=
  Collide names a b ∨ MutualSubtypes a b

/-- The type is told by its text, when the text is over or goes on with one of the given
characters. -/
def ReadBack (names : Symbol.Names) (stops : List Char) (P : Ty → Prop) (a : Ty) : Prop :=
  ∀ b, b.Legible names → P b → ∀ rest rest', EndsAt stops rest → EndsAt stops rest' →
    (a.text names).toList ++ rest = (b.text names).toList ++ rest' →
      CollideOrMutual names a b ∧ rest = rest'

/-! ### Alternatives -/

/-- Types whose alternatives are related one by one. -/
theorem mutualSubtypes_of_alternatives {a b : Ty} (ha : a.Legible names) (hb : b.Legible names)
    (h : List.Forall₂ MutualSubtypes a.alternatives b.alternatives) : MutualSubtypes a b := by
  intro policy
  constructor
  · apply isSubtype_iff_forall_alternatives.mpr
    intro x hx
    obtain ⟨y, hy, hxy⟩ := forall₂_exists_right h x hx
    exact isSubtype_of_mem_alternatives (ha.of_mem_alternatives hx).wellFormed hy (hxy policy).1
  · apply isSubtype_iff_forall_alternatives.mpr
    intro y hy
    obtain ⟨x, hx, hxy⟩ := forall₂_exists_right h.flip y hy
    exact isSubtype_of_mem_alternatives (hb.of_mem_alternatives hy).wellFormed hx (hxy policy).2

/-- The characters that may follow a type. -/
def afterType : List Char := [',', ')']

/-- The characters that may follow an alternative. -/
def afterSingle : List Char := [' ', ',', ')']

/-- A type is told by its text when its alternatives are. -/
theorem readBack_of_alternatives {a : Ty} (ha : a.Legible names)
    (h : ∀ x ∈ a.alternatives, x.ReadBack names afterSingle IsSingle) :
    a.ReadBack names afterType fun _ => True := by
  intro b hb _ rest rest' hrest hrest' htext
  have hsub : afterType ⊆ afterSingle := List.subset_cons_self _ _
  have hno : ∀ {rest : List Char}, EndsAt afterType rest → ∀ more, rest ≠ " | ".toList ++ more := by
    rintro _ hrest more rfl
    exact absurd (endsAt_cons_iff.mp hrest) (by decide)
  rw [text_eq_intercalate ha, text_eq_intercalate hb, String.toList_intercalate,
    String.toList_intercalate, List.map_map, List.map_map] at htext
  obtain ⟨hall, heq⟩ := forall₂_of_intercalate_append_eq (r := CollideOrMutual names)
    (fun more => endsAt_cons_iff.mpr (by decide)) (hrest.mono hsub)
    (hrest'.mono hsub) (hno hrest) (hno hrest') (alternatives_ne_nil a) (alternatives_ne_nil b)
    (fun x hx y hy => h x hx y (hb.of_mem_alternatives hy) (isSingle_of_mem_alternatives hy)) htext
  refine ⟨?_, heq⟩
  rcases forall₂_or hall with ⟨i, x, y, hx, hy, hxy⟩ | hall
  · exact .inl (.alternative hx hy hxy)
  · exact .inr (mutualSubtypes_of_alternatives ha hb hall)

/-! ### Words -/

/-- The name of a scalar contains no punctuation. -/
theorem plain_text_scalar (s : Scalar) : Plain s.text.toList := by
  cases s <;> decide

/-- The name of a scalar is not empty. -/
theorem toList_text_scalar_ne_nil (s : Scalar) : s.text.toList ≠ [] := by
  cases s <;> decide

/-- The head of a legible type contains no punctuation. -/
theorem plain_headText {a : Ty} (ha : a.Legible names) : Plain (headText names a).toList := by
  cases a with
  | unknown => exact (by decide : Plain "?".toList)
  | void => exact (by decide : Plain "Void".toList)
  | scalar s => exact plain_text_scalar s
  | union members => exact (by decide : Plain "Any".toList)
  | tuple t =>
      show Plain (t.tag.elim "" (nameText names)).toList
      cases htag : t.tag with
      | none => exact nofun
      | some s => exact (eq_some_nameText (ha.spells_tag htag)).2.plain

/-- A word ends before the members as it would end behind them. -/
theorem endsAt_argumentsText (entries? : Option (List (TupleEntry Ty))) {stops rest : List Char}
    (h : EndsAt stops rest) (hopen : '(' ∈ stops) :
    EndsAt stops ((argumentsText names entries?).toList ++ rest) := by
  cases entries? with
  | none => exact h
  | some entries =>
      rw [argumentsText, String.append_assoc, String.toList_append, List.append_assoc]
      exact endsAt_cons_iff.mpr hopen

/-- The text of a type begins with that of its first alternative. -/
theorem exists_text_eq_append {a : Ty} (ha : a.Legible names) :
    ∃ (x : Ty) (more : String), x.Legible names ∧ x.IsSingle ∧ a.text names = x.text names ++ more ∧
      ∀ rest, EndsAt afterType rest → EndsAt afterSingle (more.toList ++ rest) := by
  have htext := text_eq_intercalate ha
  obtain ⟨x, xs, hxs⟩ := List.exists_cons_of_ne_nil (alternatives_ne_nil a)
  have hx : x ∈ a.alternatives := hxs ▸ List.mem_cons_self
  rw [hxs] at htext
  cases xs with
  | nil =>
      refine ⟨x, "", ha.of_mem_alternatives hx, isSingle_of_mem_alternatives hx, ?_,
        fun rest hrest => hrest.mono (by decide)⟩
      rw [htext, String.append_empty]
      exact String.intercalate_singleton
  | cons y ys =>
      refine ⟨x, " | " ++ " | ".intercalate ((y :: ys).map (text names)),
        ha.of_mem_alternatives hx, isSingle_of_mem_alternatives hx, ?_, fun rest _ => ?_⟩
      · rw [htext, ← String.append_assoc]
        exact String.intercalate_cons_cons
      · rw [String.toList_append, List.append_assoc]
        exact endsAt_cons_iff.mpr (by decide)

/-- A text begins with a word, and no colon follows it. -/
theorem exists_text_eq_word {a : Ty} (ha : a.Legible names) :
    ∃ word tail, (a.text names).toList = word ++ tail ∧ Plain word ∧
      ∀ rest, EndsAt afterType rest → EndsAt ('(' :: afterSingle) (tail ++ rest) := by
  obtain ⟨x, more, hx, hsingle, htext, hends⟩ := exists_text_eq_append ha
  refine ⟨(headText names x).toList, (argumentsText names x.arguments? ++ more).toList, ?_,
    plain_headText hx, fun rest hrest => ?_⟩
  · rw [htext, text_of_isSingle hx hsingle, String.append_assoc, String.toList_append]
  · rw [String.toList_append, List.append_assoc]
    exact endsAt_argumentsText _ ((hends rest hrest).mono (List.subset_cons_self _ _))
      List.mem_cons_self

/-- A text does not begin with a closing parenthesis. -/
theorem text_append_ne_close {a : Ty} (ha : a.Legible names) {rest more : List Char} :
    (a.text names).toList ++ rest ≠ ')' :: more := by
  intro h
  obtain ⟨x, tail, hx, hsingle, htext, -⟩ := exists_text_eq_append ha
  rw [htext, text_of_isSingle hx hsingle] at h
  simp only [String.toList_append, List.append_assoc] at h
  cases hhead : (headText names x).toList with
  | cons c cs =>
      rw [hhead, List.cons_append] at h
      have hc := plain_headText hx c (hhead ▸ List.mem_cons_self)
      obtain ⟨rfl, -⟩ := List.cons.inj h
      exact absurd hc (by decide)
  | nil =>
      rw [hhead, List.nil_append] at h
      cases x with
      | tuple t =>
          rw [arguments?, argumentsText, String.append_assoc, String.toList_append] at h
          exact absurd (List.cons.inj h).1 (by decide)
      | unknown => exact absurd hhead (by decide : "?".toList ≠ [])
      | void => exact absurd hhead (by decide : "Void".toList ≠ [])
      | scalar s => exact absurd hhead (toList_text_scalar_ne_nil s)
      | union members => exact absurd hhead (by decide : "Any".toList ≠ [])

/-! ### Members -/

/-- The text of a field: its name, a colon, the text of its type. -/
theorem toList_entryText_named {f : Symbol} {a : Ty} {rest : List Char} :
    (entryText names (.named f a)).toList ++ rest
      = (nameText names f).toList ++ ':' :: ' ' :: ((a.text names).toList ++ rest) := by
  rw [entryText, String.toList_append, String.toList_append, List.append_assoc, List.append_assoc]
  rfl

/-- A positional member does not look like a named one. -/
theorem text_append_ne_named {a : Ty} (ha : a.Legible names) {f : Symbol} (hf : names.Spells f)
    {rest more : List Char} (hrest : EndsAt afterType rest) :
    (a.text names).toList ++ rest ≠ (nameText names f).toList ++ ':' :: more := by
  intro h
  obtain ⟨word, tail, htext, hword, hends⟩ := exists_text_eq_word ha
  have hends := hends rest hrest
  rw [htext, List.append_assoc] at h
  have hcolon : EndsAt punctuation (':' :: more) := endsAt_cons_iff.mpr (by decide)
  obtain ⟨-, heq⟩ := append_inj_of_endsAt hword (eq_some_nameText hf).2.plain
    (hends.mono (by decide)) hcolon h
  rw [heq, endsAt_cons_iff] at hends
  exact absurd hends (by decide)

/-- A member is positional, or a field that is spelled. -/
theorem mem_entries_cases {t : Tuple Ty} (ht : (tuple t).Legible names) {e : TupleEntry Ty}
    (he : e ∈ t.entries) :
    (∃ a ∈ t.members, e = .positional a) ∨
      ∃ f, names.Spells f ∧ ∃ a ∈ t.members, e = .named f a := by
  rcases List.mem_append.mp he with he | he
  · obtain ⟨a, ha, rfl⟩ := List.mem_map.mp he
    exact .inl ⟨a, Tuple.mem_members_of_positional ha, rfl⟩
  · obtain ⟨⟨f, a⟩, hmem, rfl⟩ := List.mem_map.mp he
    obtain ⟨hf, ha⟩ := List.of_mem_zip hmem
    exact .inr ⟨f, ht.spells_field hf, a, List.mem_append_right _ ha, rfl⟩

/-- A member does not begin with a closing parenthesis. -/
theorem entryText_append_ne_close {t : Tuple Ty} (ht : (tuple t).Legible names)
    {e : TupleEntry Ty} (he : e ∈ t.entries) {rest more : List Char} :
    (entryText names e).toList ++ rest ≠ ')' :: more := by
  obtain ⟨-, -, hlegible⟩ := legible_tuple_iff.mp ht
  rcases mem_entries_cases ht he with ⟨a, ha, rfl⟩ | ⟨f, hf, a, ha, rfl⟩
  · exact text_append_ne_close (hlegible a ha)
  · intro h
    obtain ⟨hnonempty, hplain⟩ := (eq_some_nameText hf).2
    rw [toList_entryText_named] at h
    cases hname : (nameText names f).toList with
    | nil => exact absurd (String.toList_eq_nil_iff.mp hname) hnonempty
    | cons c cs =>
        rw [hname, List.cons_append] at h
        have hc := hplain c (hname ▸ List.mem_cons_self)
        obtain ⟨rfl, -⟩ := List.cons.inj h
        exact absurd hc (by decide)

/-- The text of the members stands between parentheses. -/
theorem argumentsText_some_append {es : List (TupleEntry Ty)} {rest : List Char} :
    (argumentsText names (some es)).toList ++ rest
      = '(' :: (", ".toList.intercalate (es.map fun e => (entryText names e).toList)
        ++ ')' :: rest) := by
  rw [argumentsText, String.append_assoc, String.toList_append, String.toList_append,
    String.toList_intercalate, List.map_map, List.append_assoc, List.append_assoc]
  rfl

/-- Members between parentheses are told by the text when each of them is. -/
theorem forall₂_of_argumentsText_eq {r : TupleEntry Ty → TupleEntry Ty → Prop}
    {es es' : List (TupleEntry Ty)}
    (hclose : ∀ e ∈ es, ∀ rest more, (entryText names e).toList ++ rest ≠ ')' :: more)
    (hclose' : ∀ e ∈ es', ∀ rest more, (entryText names e).toList ++ rest ≠ ')' :: more)
    (part : ∀ e ∈ es, ∀ e' ∈ es', ∀ rest rest', EndsAt afterType rest → EndsAt afterType rest' →
      (entryText names e).toList ++ rest = (entryText names e').toList ++ rest' →
        r e e' ∧ rest = rest') {rest rest' : List Char}
    (h : (argumentsText names (some es)).toList ++ rest
      = (argumentsText names (some es')).toList ++ rest') :
    List.Forall₂ r es es' ∧ rest = rest' := by
  rw [argumentsText_some_append, argumentsText_some_append] at h
  replace h := (List.cons.inj h).2
  -- a list of members with a first one does not look like the end of the list
  have hstart : ∀ {es : List (TupleEntry Ty)} {rest more : List Char},
      (∀ e ∈ es, ∀ rest more, (entryText names e).toList ++ rest ≠ ')' :: more) → es ≠ [] →
        ", ".toList.intercalate (es.map fun e => (entryText names e).toList) ++ rest
          ≠ ')' :: more := by
    intro es rest more hes hne
    cases es with
    | nil => exact absurd rfl hne
    | cons e es =>
        cases es with
        | nil =>
            rw [List.map_singleton, List.intercalate_singleton]
            exact hes e List.mem_cons_self rest more
        | cons e' es =>
            rw [intercalate_map_cons_cons, List.append_assoc]
            exact hes e List.mem_cons_self _ more
  by_cases hes : es = [] <;> by_cases hes' : es' = []
  · subst hes hes'
    exact ⟨.nil, (List.cons.inj h).2⟩
  · subst hes
    exact absurd h.symm (hstart hclose' hes')
  · subst hes'
    exact absurd h (hstart hclose hes)
  · have hends : ∀ rest, EndsAt afterType (')' :: rest) := fun _ =>
      endsAt_cons_iff.mpr (by decide)
    have hno : ∀ rest more, ')' :: rest ≠ ", ".toList ++ more := fun _ _ heq =>
      absurd (List.cons.inj heq).1 (by decide)
    obtain ⟨hall, heq⟩ := forall₂_of_intercalate_append_eq
      (fun more => endsAt_cons_iff.mpr (by decide)) (hends rest) (hends rest') (hno rest)
      (hno rest') hes hes' part h
    exact ⟨hall, (List.cons.inj heq).2⟩

section members

variable (hinj : ∀ s s' name, names s = some name → names s' = some name → s = s')
include hinj

/-- A symbol is told by its text. -/
theorem eq_of_nameText_eq {s s' : Symbol} (hs : names.Spells s) (hs' : names.Spells s')
    (h : nameText names s = nameText names s') : s = s' :=
  hinj s s' _ (eq_some_nameText hs).1 (h ▸ (eq_some_nameText hs').1)

variable {t u : Tuple Ty} (ht : (tuple t).Legible names) (hu : (tuple u).Legible names)
  (hmembers : ∀ a ∈ t.members, a.ReadBack names afterType fun _ => True)
include ht hu hmembers

/-- A member is told by its text when its value is. -/
theorem rel_of_entryText_eq {e e' : TupleEntry Ty} (he : e ∈ t.entries) (he' : e' ∈ u.entries)
    {rest rest' : List Char} (hrest : EndsAt afterType rest) (hrest' : EndsAt afterType rest')
    (h : (entryText names e).toList ++ rest = (entryText names e').toList ++ rest') :
    e.Rel (CollideOrMutual names) e' ∧ rest = rest' := by
  obtain ⟨-, -, hlegible⟩ := legible_tuple_iff.mp ht
  obtain ⟨-, -, hlegible'⟩ := legible_tuple_iff.mp hu
  rcases mem_entries_cases ht he with ⟨a, ha, rfl⟩ | ⟨f, hf, a, ha, rfl⟩ <;>
    rcases mem_entries_cases hu he' with ⟨b, hb, rfl⟩ | ⟨g, hg, b, hb, rfl⟩
  · obtain ⟨hab, heq⟩ := hmembers a ha b (hlegible' b hb) trivial rest rest' hrest hrest' h
    exact ⟨.positional hab, heq⟩
  · rw [toList_entryText_named] at h
    exact absurd h (text_append_ne_named (hlegible a ha) hg hrest)
  · rw [toList_entryText_named] at h
    exact absurd h.symm (text_append_ne_named (hlegible' b hb) hf hrest')
  · rw [toList_entryText_named, toList_entryText_named] at h
    have hcolon : ∀ more, EndsAt punctuation (':' :: more) := fun _ =>
      endsAt_cons_iff.mpr (by decide)
    obtain ⟨hname, hvalue⟩ := append_inj_of_endsAt (eq_some_nameText hf).2.plain
      (eq_some_nameText hg).2.plain (hcolon _) (hcolon _) h
    obtain rfl := eq_of_nameText_eq hinj hf hg (String.toList_inj.mp hname)
    obtain ⟨hab, heq⟩ := hmembers a ha b (hlegible' b hb) trivial rest rest' hrest hrest'
      (List.cons.inj (List.cons.inj hvalue).2).2
    exact ⟨.named hab, heq⟩

end members

/-- Tuple types whose members are mutual subtypes are mutual subtypes. -/
theorem mutualSubtypes_tuple {t u : Tuple Ty} (ht : t.WellFormed) (hu : u.WellFormed)
    (htag : t.tag = u.tag) (hpositional : List.Forall₂ MutualSubtypes t.positional u.positional)
    (hnamed : List.Forall₂ (fun x y => x.1 = y.1 ∧ MutualSubtypes x.2 y.2) t.named u.named) :
    MutualSubtypes (.tuple t) (.tuple u) := by
  have hrel : t.Rel MutualSubtypes u := by
    refine ⟨htag, hpositional, fun f => ?_⟩
    rw [Tuple.field?_eq_lookup, Tuple.field?_eq_lookup]
    exact lookup_rel hnamed f
  intro policy
  constructor
  · apply (isSubtype_tuple_tuple ht hu).mpr
    exact (hrel.imp fun a _ b _ hab => (hab policy).1).standsFor
  · apply (isSubtype_tuple_tuple hu ht).mpr
    exact (hrel.flip.imp fun b _ a _ hab => (hab policy).2).standsFor

/-- Two tuple types whose members collide somewhere or are mutual subtypes everywhere. -/
theorem collideOrMutual_of_entries {t u : Tuple Ty} (ht : t.WellFormed) (hu : u.WellFormed)
    (htag : t.tag = u.tag)
    (h : List.Forall₂ (TupleEntry.Rel (CollideOrMutual names)) t.entries u.entries) :
    CollideOrMutual names (.tuple t) (.tuple u) := by
  obtain ⟨hpositional, hnamed⟩ := Tuple.forall₂_entries h
  rcases forall₂_or hpositional with ⟨i, a, b, ha, hb, hab⟩ | hpositional
  · exact .inl (.member (ht.getKey_index_eq_ok_iff.mpr ha) (hu.getKey_index_eq_ok_iff.mpr hb) hab)
  have hfield : ∀ {t : Tuple Ty}, t.WellFormed → ∀ {i : Nat} {x : Symbol × Ty},
      t.named[i]? = some x → t.getKey (.field x.1) = .ok x.2 := by
    intro t ht i x hx
    rw [Tuple.getKey_field_eq_ok_iff, Tuple.field?_eq_lookup,
      lookup_eq_some_iff_mem ht.nodup_keys_named]
    exact List.mem_of_getElem? hx
  have hnamed : List.Forall₂ (fun x y => (x.1 = y.1 ∧ Collide names x.2 y.2) ∨
      x.1 = y.1 ∧ MutualSubtypes x.2 y.2) t.named u.named :=
    hnamed.imp fun x y hxy => hxy.2.imp (⟨hxy.1, ·⟩) (⟨hxy.1, ·⟩)
  rcases forall₂_or hnamed with ⟨i, x, y, hx, hy, hkey, hxy⟩ | hnamed
  · exact .inl (.member (hfield ht hx) (hkey ▸ hfield hu hy) hxy)
  · exact .inr (mutualSubtypes_tuple ht hu htag hpositional hnamed)

/-! ### Single alternatives -/

/-- No scalar is printed as `Unknown` or `Void` is. -/
theorem text_scalar_ne (s : Scalar) : s.text ≠ "?" ∧ s.text ≠ "Void" := by
  cases s <;> decide

/-- A scalar is told by its name. -/
theorem eq_of_text_scalar_eq {s s' : Scalar} (h : s.text = s'.text) : s = s' := by
  revert h
  cases s <;> cases s' <;> decide

/-- Types without arguments are told by their words. -/
theorem eq_of_headText_eq {a b : Ty} (ha : a.arguments? = none) (hb : b.arguments? = none)
    (h : headText names a = headText names b) : a = b := by
  cases a with
  | tuple t => cases ha
  | union members => cases ha
  | unknown =>
      cases b with
      | unknown => rfl
      | void => exact absurd h (by decide : "?" ≠ "Void")
      | scalar s => exact absurd h.symm (text_scalar_ne s).1
      | tuple t => cases hb
      | union members => cases hb
  | void =>
      cases b with
      | unknown => exact absurd h (by decide : "Void" ≠ "?")
      | void => rfl
      | scalar s => exact absurd h.symm (text_scalar_ne s).2
      | tuple t => cases hb
      | union members => cases hb
  | scalar s =>
      cases b with
      | unknown => exact absurd h (text_scalar_ne s).1
      | void => exact absurd h (text_scalar_ne s).2
      | scalar s' => exact congrArg scalar (eq_of_text_scalar_eq h)
      | tuple t => cases hb
      | union members => cases hb

/-- Members in parentheses are not what follows a word. -/
theorem argumentsText_append_ne_none {es : List (TupleEntry Ty)} {rest rest' : List Char}
    (hrest' : EndsAt afterSingle rest') :
    (argumentsText names (some es)).toList ++ rest
      ≠ (argumentsText names none).toList ++ rest' := by
  intro h
  have h : (argumentsText names (some es)).toList ++ rest = rest' := h
  rw [argumentsText_some_append] at h
  rw [← h, endsAt_cons_iff] at hrest'
  exact absurd hrest' (by decide)

section induction

variable (hinj : ∀ s s' name, names s = some name → names s' = some name → s = s')
include hinj

/-- The head of a tuple type tells its tag. -/
theorem tag_eq_of_headText_eq {t u : Tuple Ty} (ht : (tuple t).Legible names)
    (hu : (tuple u).Legible names) (h : headText names (.tuple t) = headText names (.tuple u)) :
    t.tag = u.tag := by
  replace h : t.tag.elim "" (nameText names) = u.tag.elim "" (nameText names) := h
  cases htag : t.tag with
  | none =>
      cases htag' : u.tag with
      | none => rfl
      | some s' =>
          rw [htag, htag'] at h
          exact absurd h.symm (eq_some_nameText (hu.spells_tag htag')).2.nonempty
  | some s =>
      cases htag' : u.tag with
      | none =>
          rw [htag, htag'] at h
          exact absurd h (eq_some_nameText (ht.spells_tag htag)).2.nonempty
      | some s' =>
          rw [htag, htag'] at h
          exact congrArg some
            (eq_of_nameText_eq hinj (ht.spells_tag htag) (hu.spells_tag htag') h)

omit hinj in
/-- A tuple type with the head of the empty union has the tag `Any`. -/
theorem tag_eq_any_of_headText_eq {t : Tuple Ty} (ht : (tuple t).Legible names)
    (h : headText names (.tuple t) = "Any") : t.tag.bind names = some "Any" := by
  replace h : t.tag.elim "" (nameText names) = "Any" := h
  cases htag : t.tag with
  | none =>
      rw [htag] at h
      exact absurd h (by decide : "" ≠ "Any")
  | some s =>
      rw [htag] at h
      rw [Option.bind_some, (eq_some_nameText (ht.spells_tag htag)).1]
      exact congrArg some h

omit hinj in
/-- A single alternative with arguments is a tuple type or the empty union. -/
theorem IsSingle.arguments?_cases {a : Ty} (h : a.IsSingle) {es : List (TupleEntry Ty)}
    (hes : a.arguments? = some es) :
    (∃ t, a = .tuple t ∧ es = t.entries) ∨ (a = .union [] ∧ es = []) := by
  cases a with
  | unknown => cases hes
  | void => cases hes
  | scalar s => cases hes
  | tuple t => exact .inl ⟨t, rfl, (Option.some.inj hes).symm⟩
  | union members =>
      obtain rfl := h members rfl
      exact .inr ⟨rfl, (Option.some.inj hes).symm⟩

/-- Types with arguments are told by their words and their arguments when the members are. -/
theorem readBack_arguments {a b : Ty} (ha : a.Legible names) (hb : b.Legible names)
    (hmembers : ∀ t, a = .tuple t → ∀ x ∈ t.members, x.ReadBack names afterType fun _ => True)
    (hsingle : a.IsSingle) (hsingle' : b.IsSingle)
    {es es' : List (TupleEntry Ty)} (hes : a.arguments? = some es) (hes' : b.arguments? = some es')
    (hhead : headText names a = headText names b) {rest rest' : List Char}
    (hargs : (argumentsText names (some es)).toList ++ rest
      = (argumentsText names (some es')).toList ++ rest') :
    CollideOrMutual names a b ∧ rest = rest' := by
  have hclose : ∀ {t : Tuple Ty}, (tuple t).Legible names → ∀ e ∈ t.entries, ∀ rest more,
      (entryText names e).toList ++ rest ≠ ')' :: more :=
    fun ht e he rest more => entryText_append_ne_close ht he
  rcases hsingle.arguments?_cases hes with ⟨t, rfl, rfl⟩ | ⟨rfl, rfl⟩ <;>
    rcases hsingle'.arguments?_cases hes' with ⟨u, rfl, rfl⟩ | ⟨rfl, rfl⟩
  · obtain ⟨hentries, heq⟩ := forall₂_of_argumentsText_eq (hclose ha) (hclose hb)
      (fun e he e' he' rest rest' => rel_of_entryText_eq hinj ha hb (hmembers t rfl) he he') hargs
    exact ⟨collideOrMutual_of_entries (legible_tuple_iff.mp ha).1 (legible_tuple_iff.mp hb).1
      (tag_eq_of_headText_eq hinj ha hb hhead) hentries, heq⟩
  · obtain ⟨hentries, heq⟩ := forall₂_of_argumentsText_eq (r := fun _ _ => True) (hclose ha)
      (List.forall_mem_nil _) (fun _ _ _ h => absurd h List.not_mem_nil) hargs
    exact ⟨.inl (.right (List.forall₂_nil_right_iff.mp hentries)
      (tag_eq_any_of_headText_eq ha hhead)), heq⟩
  · obtain ⟨hentries, heq⟩ := forall₂_of_argumentsText_eq (r := fun _ _ => True)
      (List.forall_mem_nil _) (hclose hb) (fun _ h => absurd h List.not_mem_nil) hargs
    exact ⟨.inl (.left (List.forall₂_nil_left_iff.mp hentries)
      (tag_eq_any_of_headText_eq hb hhead.symm)), heq⟩
  · have hempty : ∀ policy, isSubtype policy (union []) (union []) = true := fun _ => rfl
    exact ⟨.inr fun policy => ⟨hempty policy, hempty policy⟩, List.append_cancel_left hargs⟩

/-- A single alternative is told by its text when its members are. -/
theorem readBack_of_isSingle {a : Ty} (ha : a.Legible names) (hsingle : a.IsSingle)
    (hmembers : ∀ t, a = .tuple t → ∀ x ∈ t.members, x.ReadBack names afterType fun _ => True) :
    a.ReadBack names afterSingle IsSingle := by
  intro b hb hsingle' rest rest' hrest hrest' htext
  have hends : ∀ {rest : List Char} (es : Option (List (TupleEntry Ty))), EndsAt afterSingle rest →
      EndsAt punctuation ((argumentsText names es).toList ++ rest) := fun es hrest =>
    endsAt_argumentsText es (hrest.mono (by decide)) (by decide)
  rw [text_of_isSingle ha hsingle, text_of_isSingle hb hsingle', String.toList_append,
    String.toList_append, List.append_assoc, List.append_assoc] at htext
  obtain ⟨hhead, hargs⟩ := append_inj_of_endsAt (plain_headText ha) (plain_headText hb)
    (hends _ hrest) (hends _ hrest') htext
  replace hhead := String.toList_inj.mp hhead
  cases hes : a.arguments? with
  | none =>
      cases hes' : b.arguments? with
      | none =>
          rw [hes, hes'] at hargs
          obtain rfl := eq_of_headText_eq hes hes' hhead
          exact ⟨.inr fun policy => ⟨isSubtype_refl ha.wellFormed, isSubtype_refl ha.wellFormed⟩,
            hargs⟩
      | some es' =>
          rw [hes, hes'] at hargs
          exact absurd hargs.symm (argumentsText_append_ne_none hrest)
  | some es =>
      cases hes' : b.arguments? with
      | none =>
          rw [hes, hes'] at hargs
          exact absurd hargs (argumentsText_append_ne_none hrest')
      | some es' =>
          rw [hes, hes'] at hargs
          exact readBack_arguments hinj ha hb hmembers hsingle hsingle' hes hes' hhead hargs

/-- A type is told by its text, up to mutual subtyping and collisions. -/
theorem readBack {a : Ty} (ha : a.Legible names) : a.ReadBack names afterType fun _ => True := by
  apply readBack_of_alternatives ha
  induction a using Ty.induction with
  | tuple t ih =>
      intro x hx
      obtain rfl := List.mem_singleton.mp hx
      refine readBack_of_isSingle hinj ha nofun fun u hu y hy => ?_
      obtain rfl := tuple.inj hu
      have hy' := (legible_tuple_iff.mp ha).2.2 y hy
      exact readBack_of_alternatives hy' (ih y hy hy')
  | union members ih =>
      intro x hx
      by_cases hnil : members = []
      · subst hnil
        obtain rfl := List.mem_singleton.mp hx
        exact readBack_of_isSingle hinj ha (isSingle_of_mem_alternatives hx) nofun
      · rw [alternatives_union hnil, List.mem_flatMap] at hx
        obtain ⟨a, hmem, hx⟩ := hx
        exact ih a hmem (legible_union_iff.mp ha a hmem) x hx
  | _ =>
      intro x hx
      obtain rfl := List.mem_singleton.mp hx
      exact readBack_of_isSingle hinj ha nofun nofun

/-- Types with the same text collide or are mutual subtypes. -/
theorem collideOrMutual_of_text_eq {a b : Ty} (ha : a.Legible names) (hb : b.Legible names)
    (h : a.text names = b.text names) : CollideOrMutual names a b :=
  (readBack hinj ha b hb trivial [] [] endsAt_nil endsAt_nil (by rw [h])).1

end induction

end Ty

end TaggedTuple
