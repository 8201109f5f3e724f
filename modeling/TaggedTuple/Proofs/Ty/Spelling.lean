import TaggedTuple.Proofs.Symbols.Texts
import TaggedTuple.Proofs.Text.Separated
import TaggedTuple.Proofs.Ty.Order

/-!
# How a type is spelled

The text of a type whose tags and field names are words (`Ty.Legible`). A union is printed without
brackets around it, so its text is that of its printed alternatives, whatever the nesting
(`Ty.text_eq_intercalate`). A single alternative is a word, in front of the arguments in parentheses
if it has any (`Ty.text_of_isSingle`). The empty union is one of them: it is printed like a tuple.
-/

namespace TaggedTuple

/-- The characters around words in the text of a type, and the quotes around the text in a
message. -/
def punctuation : List Char := ['(', ')', ',', ':', ' ', '|', '`']

/-- The text contains no punctuation. -/
def Plain (text : List Char) : Prop := ∀ c ∈ text, c ∉ punctuation

instance decidablePlain (text : List Char) : Decidable (Plain text) :=
  decidable_of_iff (text.all (fun c => decide (c ∉ punctuation)) = true) (by simp [Plain])

/-- Text without punctuation contains no quote. -/
theorem Plain.quote_not_mem {text : List Char} (h : Plain text) : '`' ∉ text := fun hmem =>
  h '`' hmem (by decide)

/-- The name is not empty and contains no punctuation. -/
structure IsWord (name : String) : Prop where
  nonempty : name ≠ ""
  plain : Plain name.toList

/-- Identifiers are words. -/
theorem isWord_of_identifier {name : String} (hname : name ≠ "")
    (h : name.toList.all (fun c => c.isAlphanum || c == '_') = true) : IsWord name := by
  refine ⟨hname, fun c hc hmem => ?_⟩
  have hchar := List.all_eq_true.mp h c hc
  rw [Bool.or_eq_true, beq_iff_eq] at hchar
  simp only [punctuation, List.mem_cons, List.not_mem_nil, or_false] at hmem
  rcases hchar with halnum | rfl
  · rcases hmem with rfl | rfl | rfl | rfl | rfl | rfl | rfl <;> exact absurd halnum (by decide)
  · exact absurd hmem (by decide)

/-- The symbol has a name, and the name is a word. -/
def Symbol.Names.Spells (names : Symbol.Names) (s : Symbol) : Prop :=
  ∃ name, names s = some name ∧ IsWord name

/-- A symbol that is spelled has a name. -/
theorem Symbol.Names.Spells.knows {names : Symbol.Names} {s : Symbol} (h : names.Spells s) :
    names.Knows s := by
  obtain ⟨name, hname, -⟩ := h
  rw [Symbol.Names.Knows, hname]
  rfl

/-- Mapping a tuple maps its named members. -/
theorem Tuple.named_map {α β : Type} (g : α → β) (t : Tuple α) :
    (t.map g).named = t.named.map fun x => (x.1, g x.2) :=
  List.zip_map_right

namespace Ty

variable {names : Symbol.Names} {policy : TuplePolicy}

/-- The type is well-formed, and its tags and field names are words. -/
structure Legible (names : Symbol.Names) (a : Ty) : Prop where
  wellFormed : a.WellFormed
  spells : AllSymbols names.Spells a

/-- A tuple type is legible when its names are words and its members are legible. -/
theorem legible_tuple_iff {t : Tuple Ty} :
    (tuple t).Legible names ↔
      t.WellFormed ∧ AllSymbols names.Spells t.layout ∧ ∀ a ∈ t.members, a.Legible names := by
  constructor
  · rintro ⟨hwf, hspells⟩
    obtain ⟨shape, members⟩ := wellFormed_tuple_iff.mp hwf
    obtain ⟨hlayout, hmembers⟩ := allSymbols_layout_and_members (allSymbols_tuple.mp hspells)
    exact ⟨shape, hlayout, fun a ha => ⟨members a ha, hmembers a ha⟩⟩
  · rintro ⟨shape, hlayout, hmembers⟩
    refine ⟨.tuple shape fun a ha => (hmembers a ha).wellFormed, allSymbols_tuple.mpr ?_⟩
    rw [allSymbols_tuple_iff, ← allSymbols_append]
    exact ⟨hlayout, allSymbols_list_iff.mpr fun a ha => (hmembers a ha).spells⟩

/-- A union is legible when all its members are. -/
theorem legible_union_iff {members : List Ty} :
    (union members).Legible names ↔ ∀ a ∈ members, a.Legible names := by
  constructor
  · rintro ⟨hwf, hspells⟩ a ha
    exact ⟨wellFormed_union_iff.mp hwf a ha,
      allSymbols_list_iff.mp (allSymbols_union.mp hspells) a ha⟩
  · exact fun h => ⟨.union fun a ha => (h a ha).wellFormed,
      allSymbols_union.mpr (allSymbols_list_iff.mpr fun a ha => (h a ha).spells)⟩

/-- The tag of a legible tuple type is a word. -/
theorem Legible.spells_tag {t : Tuple Ty} (h : (tuple t).Legible names) {s : Symbol}
    (hs : t.tag = some s) : names.Spells s := by
  obtain ⟨-, hlayout, -⟩ := legible_tuple_iff.mp h
  have htag : AllSymbols names.Spells t.tag := (allSymbols_layout_iff.mp hlayout).1
  rw [hs] at htag
  exact allSymbols_symbol.mp (allSymbols_some.mp htag)

/-- The fields of a legible tuple type are words. -/
theorem Legible.spells_field {t : Tuple Ty} (h : (tuple t).Legible names) {f : Symbol}
    (hf : f ∈ t.layout.fields) : names.Spells f := by
  obtain ⟨-, hlayout, -⟩ := legible_tuple_iff.mp h
  exact allSymbols_symbol.mp (allSymbols_list_iff.mp (allSymbols_layout_iff.mp hlayout).2 f hf)

/-! ### Alternatives -/

mutual

/-- The types between the bars of the text: a union stands for its members, unless it is empty. -/
def alternatives : Ty → List Ty
  | .union [] => [.union []]
  | .union (a :: as) => a.alternatives ++ alternativesEach as
  | a => [a]

/-- The alternatives of all types of a list. -/
def alternativesEach : List Ty → List Ty
  | [] => []
  | a :: as => a.alternatives ++ alternativesEach as

end

/-- The alternatives of a list, as a map. -/
theorem alternativesEach_eq (as : List Ty) : alternativesEach as = as.flatMap alternatives := by
  induction as with
  | nil => rfl
  | cons a as ih => rw [alternativesEach, ih, List.flatMap_cons]

/-- The alternatives of a union are those of its members. -/
theorem alternatives_union {members : List Ty} (h : members ≠ []) :
    alternatives (.union members) = members.flatMap alternatives := by
  cases members with
  | nil => exact absurd rfl h
  | cons a as => rw [alternatives, alternativesEach_eq, List.flatMap_cons]

/-- Every type is printed as at least one alternative. -/
theorem alternatives_ne_nil (a : Ty) : a.alternatives ≠ [] := by
  induction a using Ty.induction with
  | unknown => nofun
  | void => nofun
  | scalar s => nofun
  | tuple t _ => nofun
  | union members ih =>
      cases members with
      | nil => nofun
      | cons a as =>
          rw [alternatives]
          exact List.append_ne_nil_of_left_ne_nil (ih a List.mem_cons_self) _

/-- The type is no union of other types. -/
def IsSingle (a : Ty) : Prop := ∀ members, a = .union members → members = []

/-- No alternative is a union of others. -/
theorem isSingle_of_mem_alternatives {a x : Ty} (hx : x ∈ a.alternatives) : x.IsSingle := by
  induction a using Ty.induction with
  | unknown =>
      obtain rfl := List.mem_singleton.mp hx
      exact nofun
  | void =>
      obtain rfl := List.mem_singleton.mp hx
      exact nofun
  | scalar s =>
      obtain rfl := List.mem_singleton.mp hx
      exact nofun
  | tuple t _ =>
      obtain rfl := List.mem_singleton.mp hx
      exact nofun
  | union members ih =>
      by_cases hnil : members = []
      · subst hnil
        obtain rfl := List.mem_singleton.mp hx
        exact fun members h => (union.inj h).symm
      · rw [alternatives_union hnil, List.mem_flatMap] at hx
        obtain ⟨a, ha, hx⟩ := hx
        exact ih a ha hx

/-- The alternatives of a legible type are legible. -/
theorem Legible.of_mem_alternatives {a x : Ty} (ha : a.Legible names) (hx : x ∈ a.alternatives) :
    x.Legible names := by
  induction a using Ty.induction with
  | union members ih =>
      by_cases hnil : members = []
      · subst hnil
        obtain rfl := List.mem_singleton.mp hx
        exact ha
      · rw [alternatives_union hnil, List.mem_flatMap] at hx
        obtain ⟨a, hmem, hx⟩ := hx
        exact ih a hmem (legible_union_iff.mp ha a hmem) hx
  | _ =>
      obtain rfl := List.mem_singleton.mp hx
      exact ha

/-- A type is below another one when its alternatives are. -/
theorem isSubtype_iff_forall_alternatives {a b : Ty} :
    isSubtype policy a b = true ↔ ∀ x ∈ a.alternatives, isSubtype policy x b = true := by
  induction a using Ty.induction with
  | union members ih =>
      by_cases hnil : members = []
      · subst hnil
        exact (List.forall_mem_singleton (p := fun x => isSubtype policy x b = true)).symm
      · rw [isSubtype_union_left, alternatives_union hnil]
        simp only [List.mem_flatMap, forall_exists_index, and_imp]
        constructor
        · exact fun h x a ha hx => (ih a ha).mp (h a ha) x hx
        · exact fun h a ha => (ih a ha).mpr fun x hx => h x a ha hx
  | _ => exact (List.forall_mem_singleton (p := fun x => isSubtype policy x b = true)).symm

/-- What is below an alternative is below the type. -/
theorem isSubtype_of_mem_alternatives {x y b : Ty} (hx : x.WellFormed) (hy : y ∈ b.alternatives)
    (hxy : isSubtype policy x y = true) : isSubtype policy x b = true := by
  induction b using Ty.induction with
  | union members ih =>
      by_cases hnil : members = []
      · subst hnil
        obtain rfl := List.mem_singleton.mp hy
        exact hxy
      · rw [alternatives_union hnil, List.mem_flatMap] at hy
        obtain ⟨b, hb, hy⟩ := hy
        exact isSubtype_union_of_mem hx hb (ih b hb hy)
  | _ =>
      obtain rfl := List.mem_singleton.mp hy
      exact hxy

/-! ### Texts -/

/-- The name of a symbol, if it has one. -/
def nameText (names : Symbol.Names) (s : Symbol) : String := (names s).getD ""

/-- The text of a type, if it has one. -/
def text (names : Symbol.Names) (a : Ty) : String := (a.render names).getD ""

/-- The text of a member of a tuple type. -/
def entryText (names : Symbol.Names) : TupleEntry Ty → String
  | .positional a => a.text names
  | .named f a => nameText names f ++ ": " ++ a.text names

/-- The word that a type begins with. It is missing in front of a tuple without a tag. -/
def headText (names : Symbol.Names) : Ty → String
  | .unknown => "?"
  | .void => "Void"
  | .scalar s => s.text
  | .tuple t => t.tag.elim "" (nameText names)
  | .union _ => "Any"

/-- The members of a tuple type. The empty union is printed as if it were one without members. -/
def arguments? : Ty → Option (List (TupleEntry Ty))
  | .tuple t => some t.entries
  | .union _ => some []
  | _ => none

/-- The text of the members of a tuple type, nothing when there is no tuple. -/
def argumentsText (names : Symbol.Names) : Option (List (TupleEntry Ty)) → String
  | none => ""
  | some entries => "(" ++ ", ".intercalate (entries.map (entryText names)) ++ ")"

/-- A symbol that is spelled has its text for a name. -/
theorem eq_some_nameText {s : Symbol} (h : names.Spells s) :
    names s = some (nameText names s) ∧ IsWord (nameText names s) := by
  obtain ⟨name, hname, hword⟩ := h
  rw [nameText, hname]
  exact ⟨rfl, hword⟩

/-- A legible type has its text. -/
theorem Legible.render_eq {a : Ty} (ha : a.Legible names) :
    a.render names = some (a.text names) := by
  have hsome := isSome_render (ha.spells.imp fun _ => Symbol.Names.Spells.knows)
  obtain ⟨t, ht⟩ := Option.isSome_iff_exists.mp hsome
  rw [text, ht]
  rfl

/-- The text of a tuple type is its head, then its members. -/
theorem text_tuple {t : Tuple Ty} (h : (tuple t).Legible names) :
    (tuple t).text names = headText names (.tuple t) ++ argumentsText names (some t.entries) := by
  obtain ⟨-, -, hmembers⟩ := legible_tuple_iff.mp h
  have htext : t.tag.elim (some "") names = some (headText names (.tuple t)) := by
    show _ = some (t.tag.elim "" (nameText names))
    cases htag : t.tag with
    | none => rfl
    | some s => exact (eq_some_nameText (h.spells_tag htag)).1
  have hpositional : (t.map (render names)).positional.mapM id
      = some (t.positional.map (text names)) := by
    rw [Tuple.positional_map, List.mapM_map]
    exact mapM_eq_some_map fun a ha =>
      (hmembers a (Tuple.mem_members_of_positional ha)).render_eq
  have hnamed : ((t.map (render names)).named.mapM fun x => do
        return (← names x.1) ++ ": " ++ (← x.2))
      = some (t.named.map fun x => entryText names (.named x.1 x.2)) := by
    rw [Tuple.named_map, List.mapM_map]
    refine mapM_eq_some_map fun x hx => ?_
    obtain ⟨hf, ha⟩ := List.of_mem_zip (a := x.1) (b := x.2) hx
    have hrender := (hmembers x.2 (List.mem_append_right _ ha)).render_eq
    show (names x.1).bind _ = _
    rw [(eq_some_nameText (h.spells_field hf)).1, Option.bind_some]
    show ((x.2).render names).bind _ = _
    rw [hrender]
    rfl
  have hentries : t.positional.map (text names)
      ++ (t.named.map fun x => entryText names (.named x.1 x.2))
        = t.entries.map (entryText names) := by
    rw [Tuple.entries, List.map_append, List.map_map, List.map_map]
    rfl
  rw [text, render_tuple, Tuple.render, Tuple.tag_map, htext, hpositional, hnamed]
  show headText names (.tuple t) ++ "(" ++ ", ".intercalate (_ ++ _) ++ ")" = _
  rw [hentries, String.append_assoc, String.append_assoc, argumentsText, String.append_assoc]

/-- A single alternative is a word, in front of its arguments if it has any. -/
theorem text_of_isSingle {a : Ty} (ha : a.Legible names) (h : a.IsSingle) :
    a.text names = headText names a ++ argumentsText names a.arguments? := by
  cases a with
  | tuple t => exact text_tuple ha
  | union members =>
      obtain rfl := h members rfl
      rfl
  | unknown => rfl
  | void => rfl
  | scalar s => cases s <;> rfl

/-- The text of a union is that of its members between bars. -/
theorem text_union {members : List Ty} (h : (union members).Legible names) (hne : members ≠ []) :
    (union members).text names = " | ".intercalate (members.map (text names)) := by
  have hmembers : (members.map (render names)).mapM id = some (members.map (text names)) := by
    rw [List.mapM_map]
    exact mapM_eq_some_map fun a ha => (legible_union_iff.mp h a ha).render_eq
  rw [text, render, renderEach_eq_map, renderUnion, hmembers, if_neg]
  · rfl
  · simpa using hne

/-- The text of a type is that of its alternatives. -/
theorem text_eq_intercalate {a : Ty} (ha : a.Legible names) :
    a.text names = " | ".intercalate (a.alternatives.map (text names)) := by
  induction a using Ty.induction with
  | union members ih =>
      by_cases hnil : members = []
      · subst hnil
        exact String.intercalate_singleton.symm
      · have hparts : ∀ a ∈ members, a.alternatives.map (text names) ≠ [] := fun a _ => by
          simpa using alternatives_ne_nil a
        rw [text_union ha hnil, alternatives_union hnil, List.map_flatMap,
          intercalate_flatMap hparts]
        exact congrArg _
          (List.map_congr_left fun a hmem => ih a hmem (legible_union_iff.mp ha a hmem))
  | _ => exact String.intercalate_singleton.symm

end Ty

end TaggedTuple
