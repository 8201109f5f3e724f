import TaggedTuple.Canonical
import TaggedTuple.Pattern.LayoutMatching
import TaggedTuple.Proofs.Layout.Requests
import TaggedTuple.Proofs.Tuple.Members
import TaggedTuple.SymbolTable.Call

/-!
# The symbols that occur in results and arguments

`HasSymbols.symbols` lists the symbols of a thing, at any depth: tags and fields of layouts, the
symbols of members, the names of patterns and bindings, and the symbols that errors report.
`AllSymbols P` says that all of them have a property. Each kind of thing has one lemma that takes
`AllSymbols` apart; what follows is stated with `AllSymbols` only.
-/

set_option linter.unusedSectionVars false

namespace TaggedTuple

/-- Things in which symbols occur. -/
class HasSymbols (α : Type) where
  /-- The symbols that occur, at any depth. -/
  symbols : α → List Symbol

open HasSymbols (symbols)

/-- Every symbol that occurs has the property. -/
def AllSymbols {α : Type} [HasSymbols α] (P : Symbol → Prop) (x : α) : Prop := ∀ s ∈ symbols x, P s

/-- A property of all symbols may be replaced by a weaker one. -/
theorem AllSymbols.imp {α : Type} [HasSymbols α] {P Q : Symbol → Prop} {x : α}
    (h : AllSymbols P x) (hPQ : ∀ s, P s → Q s) : AllSymbols Q x :=
  fun s hs => hPQ s (h s hs)

/-! ### Plain data -/

section plain

variable {α β ε : Type} [HasSymbols α] [HasSymbols β] [HasSymbols ε] {P : Symbol → Prop}

instance : HasSymbols Symbol := ⟨fun s => [s]⟩

instance : HasSymbols Unit := ⟨fun _ => []⟩

instance : HasSymbols String := ⟨fun _ => []⟩

instance : HasSymbols (Option α) := ⟨fun o => o.elim [] symbols⟩

instance : HasSymbols (List α) := ⟨fun l => l.flatMap symbols⟩

instance : HasSymbols (α × β) := ⟨fun x => symbols x.1 ++ symbols x.2⟩

instance : HasSymbols (Except ε α) where
  symbols
    | .ok a => symbols a
    | .error e => symbols e

/-- A symbol occurs in itself. -/
@[simp]
theorem allSymbols_symbol {s : Symbol} : AllSymbols P s ↔ P s := by
  simp [AllSymbols, symbols]

/-- No symbols occur where nothing is answered. -/
@[simp]
theorem allSymbols_unit {u : Unit} : AllSymbols P u := by
  simp [AllSymbols, symbols]

/-- A text holds no symbols. -/
@[simp]
theorem allSymbols_string {name : String} : AllSymbols P name := by
  simp [AllSymbols, symbols]

/-- No symbols occur in an option without a value. -/
@[simp]
theorem allSymbols_none : AllSymbols P (none : Option α) := by
  simp [AllSymbols, symbols]

/-- An option holds the symbols of its value. -/
@[simp]
theorem allSymbols_some {a : α} : AllSymbols P (some a) ↔ AllSymbols P a := by
  simp [AllSymbols, symbols]

/-- A list holds the symbols of its elements. -/
theorem allSymbols_list_iff {l : List α} : AllSymbols P l ↔ ∀ a ∈ l, AllSymbols P a := by
  simp only [AllSymbols, symbols, List.mem_flatMap, forall_exists_index, and_imp]
  exact ⟨fun h a ha s hs => h s a ha hs, fun h s a ha hs => h a ha s hs⟩

/-- The empty list holds no symbols. -/
@[simp]
theorem allSymbols_nil : AllSymbols P ([] : List α) := by
  simp [allSymbols_list_iff]

/-- The symbols of a list are those of its head and of its tail. -/
@[simp]
theorem allSymbols_cons {a : α} {l : List α} :
    AllSymbols P (a :: l) ↔ AllSymbols P a ∧ AllSymbols P l := by
  simp [allSymbols_list_iff]

/-- The symbols of two lists one behind the other are those of both. -/
@[simp]
theorem allSymbols_append {l m : List α} :
    AllSymbols P (l ++ m) ↔ AllSymbols P l ∧ AllSymbols P m := by
  simp [allSymbols_list_iff, or_imp, forall_and]

/-- A pair holds the symbols of both components. -/
@[simp]
theorem allSymbols_pair {a : α} {b : β} :
    AllSymbols P (a, b) ↔ AllSymbols P a ∧ AllSymbols P b := by
  simp [AllSymbols, symbols, or_imp, forall_and]

/-- A success holds the symbols of its result. -/
@[simp]
theorem allSymbols_ok {a : α} : AllSymbols P (.ok a : Except ε α) ↔ AllSymbols P a := Iff.rfl

/-- A failure holds the symbols of its error. -/
@[simp]
theorem allSymbols_error {e : ε} : AllSymbols P (.error e : Except ε α) ↔ AllSymbols P e := Iff.rfl

/-- A part of a list holds no further symbols. -/
theorem AllSymbols.of_subset {l m : List α} (h : AllSymbols P m) (hlm : l ⊆ m) : AllSymbols P l :=
  allSymbols_list_iff.mpr fun a ha => allSymbols_list_iff.mp h a (hlm ha)

/-- A list of results holds the symbols of the results. -/
theorem allSymbols_list_map {f : α → β} {l : List α} (h : ∀ a ∈ l, AllSymbols P (f a)) :
    AllSymbols P (l.map f) :=
  allSymbols_list_iff.mpr (List.forall_mem_map.mpr h)

/-- Paired lists hold no symbols but those of the two lists. -/
theorem allSymbols_zip {l : List α} {m : List β} (hl : AllSymbols P l) (hm : AllSymbols P m) :
    AllSymbols P (l.zip m) := by
  rw [allSymbols_list_iff] at *
  rintro ⟨a, b⟩ hab
  obtain ⟨ha, hb⟩ := List.of_mem_zip hab
  exact allSymbols_pair.mpr ⟨hl a ha, hm b hb⟩

/-- The keys of a list hold no further symbols. -/
theorem allSymbols_map_fst {l : List (α × β)} (h : AllSymbols P l) :
    AllSymbols P (l.map Prod.fst) :=
  allSymbols_list_map fun x hx => (allSymbols_pair.mp (allSymbols_list_iff.mp h x hx)).1

/-- A computation that may fail passes on symbols of its parts only. -/
theorem allSymbols_bind {x : Except ε α} {f : α → Except ε β} (hx : AllSymbols P x)
    (hf : ∀ a, AllSymbols P a → AllSymbols P (f a)) : AllSymbols P (x >>= f) := by
  cases x with
  | error e => exact hx
  | ok a => exact hf a hx

/-- What is computed member by member holds the symbols of what is computed from the members. -/
theorem allSymbols_mapM {g : α → Except ε β} {l : List α} (h : ∀ a ∈ l, AllSymbols P (g a)) :
    AllSymbols P (l.mapM g) := by
  induction l with
  | nil => exact allSymbols_ok.mpr allSymbols_nil
  | cons a l ih =>
      rw [List.mapM_cons]
      refine allSymbols_bind (h a List.mem_cons_self) fun b hb => ?_
      refine allSymbols_bind (ih fun a ha => h a (List.mem_cons_of_mem _ ha)) fun bs hbs => ?_
      exact allSymbols_ok.mpr (allSymbols_cons.mpr ⟨hb, hbs⟩)

/-- An element of a list holds no further symbols. -/
theorem allSymbols_getElem? {l : List α} (h : AllSymbols P l) (i : Nat) : AllSymbols P l[i]? := by
  cases hi : l[i]? with
  | none => exact allSymbols_none
  | some a => exact allSymbols_some.mpr (allSymbols_list_iff.mp h a (List.mem_of_getElem? hi))

end plain

/-! ### Layouts and tuples -/

section tuples

variable {α : Type} [HasSymbols α] {P : Symbol → Prop}

/-- The index of a layout holds the fields once more. -/
instance : HasSymbols Layout := ⟨fun l => symbols l.tag ++ symbols l.fields⟩

instance : HasSymbols SharedLayout := ⟨fun shared => symbols shared.layout⟩

instance : HasSymbols (Tuple α) := ⟨fun t => symbols t.layout ++ symbols t.members⟩

instance : HasSymbols TupleKey where
  symbols
    | .index _ => []
    | .field f => [f]

instance : HasSymbols (TupleBuilder α) :=
  ⟨fun b => symbols b.tag ++ (symbols b.positional ++ symbols b.named)⟩

/-- Tag and fields of a canonical form are names, and only its members hold symbols. -/
instance : HasSymbols (CanonicalTuple α) :=
  ⟨fun x => symbols x.positional ++ symbols x.named⟩

instance : HasSymbols TupleError where
  symbols
    | .duplicateField f => [f]
    | .unknownField f => [f]
    | .missingField f => [f]
    | .arityMismatch .. => []
    | .indexOutOfRange .. => []

instance : HasSymbols EncodingError where
  symbols
    | .tuple e => symbols e
    | .unnamed s => [s]
    | _ => []

instance : HasSymbols LayoutCache.Request := ⟨fun r => symbols r.fields ++ symbols r.tag⟩

/-- A layout holds its tag and its fields. -/
theorem allSymbols_layout_iff {l : Layout} :
    AllSymbols P l ↔ AllSymbols P l.tag ∧ AllSymbols P l.fields := by
  simp only [AllSymbols, symbols, List.mem_append, or_imp, forall_and]

/-- A tuple holds the symbols of its layout and of its stored members. -/
theorem allSymbols_tuple_iff {t : Tuple α} :
    AllSymbols P t ↔ AllSymbols P t.layout ∧ AllSymbols P t.positional ∧ AllSymbols P t.values := by
  rw [← allSymbols_append]
  simp only [AllSymbols, symbols, List.mem_append, or_imp, forall_and, Tuple.members]

/-- The layout and each member of a tuple hold symbols of the tuple. -/
theorem allSymbols_layout_and_members {t : Tuple α} (h : AllSymbols P t) :
    AllSymbols P t.layout ∧ ∀ a ∈ t.members, AllSymbols P a := by
  obtain ⟨hlayout, hmembers⟩ := allSymbols_tuple_iff.mp h
  rw [← allSymbols_append] at hmembers
  exact ⟨hlayout, allSymbols_list_iff.mp hmembers⟩

/-- The address of a positional member holds no symbol. -/
@[simp]
theorem allSymbols_index {i : Nat} : AllSymbols P (TupleKey.index i) := by
  simp [AllSymbols, symbols]

/-- The address of a field holds the field. -/
@[simp]
theorem allSymbols_field {f : Symbol} : AllSymbols P (TupleKey.field f) ↔ P f := by
  simp [AllSymbols, symbols]

/-- A builder holds its tag and the symbols of its entries. -/
theorem allSymbols_builder_iff {b : TupleBuilder α} :
    AllSymbols P b ↔ AllSymbols P b.tag ∧ AllSymbols P b.positional ∧ AllSymbols P b.named := by
  simp only [AllSymbols, symbols, List.mem_append, or_imp, forall_and]

/-- A canonical form holds the symbols of its members. -/
theorem allSymbols_canonical_iff {x : CanonicalTuple α} :
    AllSymbols P x ↔ AllSymbols P x.positional ∧ AllSymbols P x.named := by
  simp only [AllSymbols, symbols, List.mem_append, or_imp, forall_and]

/-- The error names the field that repeats. -/
@[simp]
theorem allSymbols_duplicateField {f : Symbol} :
    AllSymbols P (TupleError.duplicateField f) ↔ P f := by
  simp [AllSymbols, symbols]

/-- The error names the field that is unknown. -/
@[simp]
theorem allSymbols_unknownField {f : Symbol} :
    AllSymbols P (TupleError.unknownField f) ↔ P f := by
  simp [AllSymbols, symbols]

/-- The error names the field that is missing. -/
@[simp]
theorem allSymbols_missingField {f : Symbol} :
    AllSymbols P (TupleError.missingField f) ↔ P f := by
  simp [AllSymbols, symbols]

/-- The error holds two numbers. -/
@[simp]
theorem allSymbols_arityMismatch {expected found : Nat} :
    AllSymbols P (TupleError.arityMismatch expected found) := by
  simp [AllSymbols, symbols]

/-- The error holds two numbers. -/
@[simp]
theorem allSymbols_indexOutOfRange {index length : Nat} :
    AllSymbols P (TupleError.indexOutOfRange index length) := by
  simp [AllSymbols, symbols]

/-- An error of a tuple keeps its symbols as an error of the encoding. -/
@[simp]
theorem allSymbols_tupleError {e : TupleError} :
    AllSymbols P (EncodingError.tuple e) ↔ AllSymbols P e := Iff.rfl

/-- The error holds two numbers. -/
@[simp]
theorem allSymbols_positionalCount {declared found : Nat} :
    AllSymbols P (EncodingError.positionalCount declared found) := by
  simp [AllSymbols, symbols]

/-- The error holds a number. -/
@[simp]
theorem allSymbols_tooManyPositional {count : Nat} :
    AllSymbols P (EncodingError.tooManyPositional count) := by
  simp [AllSymbols, symbols]

/-- The error holds the size of the table. -/
@[simp]
theorem allSymbols_internError {e : SymbolTable.InternError} :
    AllSymbols P (EncodingError.intern e) := by
  simp [AllSymbols, symbols]

/-- The error holds the symbol that has no name. -/
@[simp]
theorem allSymbols_unnamed {s : Symbol} : AllSymbols P (EncodingError.unnamed s) ↔ P s := by
  simp [AllSymbols, symbols]

/-- A request holds its fields and its tag. -/
theorem allSymbols_request_iff {r : LayoutCache.Request} :
    AllSymbols P r ↔ AllSymbols P r.fields ∧ AllSymbols P r.tag := by
  simp only [AllSymbols, symbols, List.mem_append, or_imp, forall_and]

end tuples

/-! ### Values and types -/

section recursive

variable {P : Symbol → Prop}

namespace Value

section induction

variable {motive : Value → Prop} (int : ∀ n, motive (.int n)) (str : ∀ s, motive (.str s))
  (tuple : ∀ t : Tuple Value, (∀ v ∈ t.members, motive v) → motive (.tuple t))

include int str tuple

mutual

/-- What holds of a tuple when it holds of its members holds of all values. -/
theorem induction : ∀ v : Value, motive v
  | .int n => int n
  | .str s => str s
  | .tuple ⟨shared, positional, values⟩ => tuple ⟨shared, positional, values⟩ fun v hv =>
    (List.mem_append.mp hv).elim (inductionEach positional v) (inductionEach values v)

/-- The motive holds of the values of a list. -/
theorem inductionEach : ∀ vs : List Value, ∀ v ∈ vs, motive v
  | [], _, h => absurd h List.not_mem_nil
  | v :: vs, w, h => by
    rcases List.mem_cons.mp h with heq | h
    · cases heq
      exact induction v
    · exact inductionEach vs w h

end

end induction

mutual

/-- The symbols of a value. -/
def symbolsIn : Value → List Symbol
  | .int _ => []
  | .str _ => []
  | .tuple t => symbolsInMembers t

/-- The symbols of a tuple of values. -/
def symbolsInMembers : Tuple Value → List Symbol
  | ⟨shared, positional, values⟩ =>
    symbols shared ++ (symbolsInEach positional ++ symbolsInEach values)

/-- The symbols of the values of a list. -/
def symbolsInEach : List Value → List Symbol
  | [] => []
  | v :: vs => v.symbolsIn ++ symbolsInEach vs

end

instance : HasSymbols Value := ⟨symbolsIn⟩

/-- The symbols of a list of values, as they are collected inside a value. -/
theorem symbolsInEach_eq (vs : List Value) : symbolsInEach vs = symbols vs := by
  induction vs with
  | nil => rfl
  | cons v vs ih =>
      rw [symbolsInEach, ih]
      exact List.flatMap_cons.symm

/-- A value that is a tuple holds the symbols of the tuple. -/
@[simp]
theorem allSymbols_tuple {t : Tuple Value} : AllSymbols P (tuple t) ↔ AllSymbols P t := by
  obtain ⟨shared, positional, values⟩ := t
  have hsymbols : symbols (tuple ⟨shared, positional, values⟩)
      = symbols shared ++ (symbols positional ++ symbols values) := by
    show symbolsIn _ = _
    rw [symbolsIn, symbolsInMembers, symbolsInEach_eq, symbolsInEach_eq]
  rw [allSymbols_tuple_iff]
  simp only [AllSymbols, hsymbols, List.mem_append, or_imp, forall_and]
  exact Iff.rfl

end Value

namespace Ty

section induction

variable {motive : Ty → Prop} (unknown : motive .unknown) (void : motive .void)
  (scalar : ∀ s, motive (.scalar s))
  (tuple : ∀ t : Tuple Ty, (∀ a ∈ t.members, motive a) → motive (.tuple t))
  (union : ∀ members : List Ty, (∀ a ∈ members, motive a) → motive (.union members))

include unknown void scalar tuple union

mutual

/-- What holds of a tuple type and of a union when it holds of their members holds of all types. -/
theorem induction : ∀ a : Ty, motive a
  | .unknown => unknown
  | .void => void
  | .scalar s => scalar s
  | .tuple ⟨shared, positional, values⟩ => tuple ⟨shared, positional, values⟩ fun a ha =>
    (List.mem_append.mp ha).elim (inductionEach positional a) (inductionEach values a)
  | .union members => union members (inductionEach members)

/-- The motive holds of the types of a list. -/
theorem inductionEach : ∀ as : List Ty, ∀ a ∈ as, motive a
  | [], _, h => absurd h List.not_mem_nil
  | a :: as, b, h => by
    rcases List.mem_cons.mp h with heq | h
    · cases heq
      exact induction a
    · exact inductionEach as b h

end

end induction

mutual

/-- The symbols of a type. -/
def symbolsIn : Ty → List Symbol
  | .unknown => []
  | .void => []
  | .scalar _ => []
  | .tuple t => symbolsInMembers t
  | .union members => symbolsInEach members

/-- The symbols of a tuple of types. -/
def symbolsInMembers : Tuple Ty → List Symbol
  | ⟨shared, positional, values⟩ =>
    symbols shared ++ (symbolsInEach positional ++ symbolsInEach values)

/-- The symbols of the types of a list. -/
def symbolsInEach : List Ty → List Symbol
  | [] => []
  | a :: as => a.symbolsIn ++ symbolsInEach as

end

instance : HasSymbols Ty := ⟨symbolsIn⟩

/-- The symbols of a list of types, as they are collected inside a type. -/
theorem symbolsInEach_eq (as : List Ty) : symbolsInEach as = symbols as := by
  induction as with
  | nil => rfl
  | cons a as ih =>
      rw [symbolsInEach, ih]
      exact List.flatMap_cons.symm

/-- A tuple type holds the symbols of the tuple of its members. -/
@[simp]
theorem allSymbols_tuple {t : Tuple Ty} : AllSymbols P (tuple t) ↔ AllSymbols P t := by
  obtain ⟨shared, positional, values⟩ := t
  have hsymbols : symbols (tuple ⟨shared, positional, values⟩)
      = symbols shared ++ (symbols positional ++ symbols values) := by
    show symbolsIn _ = _
    rw [symbolsIn, symbolsInMembers, symbolsInEach_eq, symbolsInEach_eq]
  rw [allSymbols_tuple_iff]
  simp only [AllSymbols, hsymbols, List.mem_append, or_imp, forall_and]
  exact Iff.rfl

/-- A union holds the symbols of its members. -/
@[simp]
theorem allSymbols_union {members : List Ty} :
    AllSymbols P (union members) ↔ AllSymbols P members := by
  have hsymbols : symbols (union members) = symbols members := by
    show symbolsIn _ = _
    rw [symbolsIn, symbolsInEach_eq]
  simp only [AllSymbols, hsymbols]

end Ty

/-! ### Patterns -/

instance : HasSymbols TagRequirement where
  symbols
    | .tag s => [s]
    | .untagged => []

instance {π : Type} [HasSymbols π] : HasSymbols (PositionalPattern π) where
  symbols
    | .sub p => symbols p
    | .rest name => symbols name

instance {π : Type} [HasSymbols π] : HasSymbols (FieldPattern π) where
  symbols
    | .shorthand => []
    | .sub p => symbols p

instance {π : Type} [HasSymbols π] : HasSymbols (TuplePattern π) where
  symbols p := symbols p.tag ++ (symbols p.positional ++ (symbols p.fields ++ symbols p.namedRest))

/-- A tuple pattern holds its tag, the symbols of its parts and the name of its rest. -/
theorem allSymbols_tuplePattern_iff {π : Type} [HasSymbols π] {p : TuplePattern π} :
    AllSymbols P p ↔ AllSymbols P p.tag ∧ AllSymbols P p.positional ∧ AllSymbols P p.fields ∧
      AllSymbols P p.namedRest := by
  simp only [AllSymbols, symbols, List.mem_append, or_imp, forall_and]

/-- The tag that a requirement expects is a symbol of the requirement. -/
theorem allSymbols_expected {requirement : TagRequirement} (h : AllSymbols P requirement) :
    AllSymbols P requirement.expected := by
  cases requirement with
  | tag s => exact allSymbols_some.mpr h
  | untagged => exact allSymbols_none

namespace Pattern

mutual

/-- The symbols of a pattern. -/
def symbolsIn : Pattern → List Symbol
  | .wildcard => []
  | .bind name => [name]
  | .literal _ => []
  | .tuple p => symbolsInMembers p

/-- The symbols of a tuple pattern. -/
def symbolsInMembers : TuplePattern Pattern → List Symbol
  | ⟨tag, positional, fields, namedRest⟩ =>
    symbols tag ++ (symbolsInPositional positional ++ (symbolsInFields fields ++ symbols namedRest))

/-- The symbols of positional parts. -/
def symbolsInPositional : List (PositionalPattern Pattern) → List Symbol
  | [] => []
  | .sub p :: parts => p.symbolsIn ++ symbolsInPositional parts
  | .rest name :: parts => symbols name ++ symbolsInPositional parts

/-- The symbols of parts for fields. -/
def symbolsInFields : List (Symbol × FieldPattern Pattern) → List Symbol
  | [] => []
  | (key, .shorthand) :: parts => key :: symbolsInFields parts
  | (key, .sub p) :: parts => key :: (p.symbolsIn ++ symbolsInFields parts)

end

instance : HasSymbols Pattern := ⟨symbolsIn⟩

/-- The symbols of positional parts, as they are collected inside a pattern. -/
theorem symbolsInPositional_eq (parts : List (PositionalPattern Pattern)) :
    symbolsInPositional parts = symbols parts := by
  induction parts with
  | nil => rfl
  | cons part parts ih =>
      have hcons : symbols (part :: parts) = symbols part ++ symbols parts := List.flatMap_cons
      rw [hcons, ← ih]
      cases part <;> rfl

/-- The symbols of parts for fields, as they are collected inside a pattern. -/
theorem symbolsInFields_eq (parts : List (Symbol × FieldPattern Pattern)) :
    symbolsInFields parts = symbols parts := by
  induction parts with
  | nil => rfl
  | cons part parts ih =>
      have hcons : symbols (part :: parts) = symbols part ++ symbols parts := List.flatMap_cons
      rw [hcons, ← ih]
      obtain ⟨key, part⟩ := part
      cases part <;> rfl

/-- A pattern that binds a name holds the name. -/
@[simp]
theorem allSymbols_bind {name : Symbol} : AllSymbols P (bind name) ↔ P name := by
  simp [AllSymbols, symbols, symbolsIn]

/-- A pattern that is a tuple pattern holds the symbols of that. -/
@[simp]
theorem allSymbols_tuple {p : TuplePattern Pattern} :
    AllSymbols P (tuple p) ↔ AllSymbols P p := by
  have hsymbols : symbols (tuple p) = symbols p := by
    obtain ⟨tag, positional, fields, namedRest⟩ := p
    show symbolsIn _ = _
    rw [symbolsIn, symbolsInMembers, symbolsInPositional_eq, symbolsInFields_eq]
    rfl
  simp only [AllSymbols, hsymbols]

end Pattern

/-! ### Results of matches and comparisons -/

instance : HasSymbols Alignment := ⟨fun _ => []⟩

instance : HasSymbols MatchFailure where
  symbols
    | .tagMismatch expected found => symbols expected ++ symbols found
    | .missingField f => [f]
    | _ => []

instance : HasSymbols PatternError where
  symbols
    | .multipleRest .. => []
    | .capture e => symbols e

instance : HasSymbols Halt where
  symbols
    | .failed failure => symbols failure
    | .malformed e => symbols e

instance : HasSymbols SlotBinding where
  symbols
    | .namedRest fields => symbols fields
    | _ => []

instance {α : Type} [HasSymbols α] : HasSymbols (Bindings α) := ⟨fun b => symbols b.entries⟩

instance {α : Type} [HasSymbols α] : HasSymbols (MatchOutcome α) where
  symbols
    | .matched b => symbols b
    | .failed failure => symbols failure

instance {α : Type} [HasSymbols α] : HasSymbols (ArmMatch α) := ⟨fun a => symbols a.bindings⟩

instance : HasSymbols MismatchKind where
  symbols
    | .incompatible expected found => symbols expected ++ symbols found
    | .positionalArity .. => []
    | .tagMismatch expected found => symbols expected ++ symbols found
    | .missingField f => [f]
    | .extraField f => [f]

instance : HasSymbols TypeMismatch := ⟨fun m => symbols m.path ++ symbols m.kind⟩

instance : HasSymbols SymbolTable.Reply where
  symbols
    | .symbol s => [s]
    | .found s => symbols s
    | .refused _ => []
    | .stopped _ => []

/-- An alignment is made of numbers. -/
@[simp]
theorem allSymbols_alignment {alignment : Alignment} : AllSymbols P alignment := by
  simp [AllSymbols, symbols]

/-- A match that stops at a failure holds the symbols of the failure. -/
@[simp]
theorem allSymbols_halt_failed {failure : MatchFailure} :
    AllSymbols P (Halt.failed failure) ↔ AllSymbols P failure := Iff.rfl

/-- An error of a capture holds the symbols of the error of the tuple. -/
@[simp]
theorem allSymbols_capture {e : TupleError} :
    AllSymbols P (PatternError.capture e) ↔ AllSymbols P e := Iff.rfl

/-- The error holds two positions. -/
@[simp]
theorem allSymbols_multipleRest {first second : Nat} :
    AllSymbols P (PatternError.multipleRest first second) := by
  simp [AllSymbols, symbols]

/-- The failure holds two numbers. -/
@[simp]
theorem allSymbols_failure_arityMismatch {expected found : Nat} {hasRest : Bool} :
    AllSymbols P (MatchFailure.arityMismatch expected found hasRest) := by
  simp [AllSymbols, symbols]

/-- The failure holds no symbols. -/
@[simp]
theorem allSymbols_notATuple : AllSymbols P MatchFailure.notATuple := by
  simp [AllSymbols, symbols]

/-- The failure holds no symbols. -/
@[simp]
theorem allSymbols_literalMismatch : AllSymbols P MatchFailure.literalMismatch := by
  simp [AllSymbols, symbols]

/-- A slot is a number. -/
@[simp]
theorem allSymbols_slot {i : Nat} : AllSymbols P (SlotBinding.slot i) := by
  simp [AllSymbols, symbols]

/-- A range of positional members is two numbers. -/
@[simp]
theorem allSymbols_positionalRest {start stop : Nat} :
    AllSymbols P (SlotBinding.positionalRest start stop) := by
  simp [AllSymbols, symbols]

/-- The other fields as a place hold these fields. -/
@[simp]
theorem allSymbols_namedRest {fields : List Symbol} :
    AllSymbols P (SlotBinding.namedRest fields) ↔ AllSymbols P fields := Iff.rfl

/-- The mismatch holds two numbers. -/
@[simp]
theorem allSymbols_kind_positionalArity {expected found : Nat} :
    AllSymbols P (MismatchKind.positionalArity expected found) := by
  simp [AllSymbols, symbols]

/-- The failure holds the tag that was required and the one that was found. -/
@[simp]
theorem allSymbols_failure_tagMismatch {expected found : Option Symbol} :
    AllSymbols P (MatchFailure.tagMismatch expected found)
      ↔ AllSymbols P expected ∧ AllSymbols P found := by
  simp [AllSymbols, symbols, or_imp, forall_and]

/-- The failure holds the field that is missing. -/
@[simp]
theorem allSymbols_failure_missingField {f : Symbol} :
    AllSymbols P (MatchFailure.missingField f) ↔ P f := by
  simp [AllSymbols, symbols]

/-- A mismatch holds the symbols of its path and of its kind. -/
theorem allSymbols_mismatch_iff {m : TypeMismatch} :
    AllSymbols P m ↔ AllSymbols P m.path ∧ AllSymbols P m.kind := by
  simp only [AllSymbols, symbols, List.mem_append, or_imp, forall_and]

/-- The mismatch holds the symbols of both types. -/
@[simp]
theorem allSymbols_kind_incompatible {expected found : Ty} :
    AllSymbols P (MismatchKind.incompatible expected found)
      ↔ AllSymbols P expected ∧ AllSymbols P found := by
  simp [AllSymbols, symbols, or_imp, forall_and]

/-- The mismatch holds the tag that was expected and the one that was found. -/
@[simp]
theorem allSymbols_kind_tagMismatch {expected found : Option Symbol} :
    AllSymbols P (MismatchKind.tagMismatch expected found)
      ↔ AllSymbols P expected ∧ AllSymbols P found := by
  simp [AllSymbols, symbols, or_imp, forall_and]

/-- The mismatch holds the field that is missing. -/
@[simp]
theorem allSymbols_kind_missingField {f : Symbol} :
    AllSymbols P (MismatchKind.missingField f) ↔ P f := by
  simp [AllSymbols, symbols]

/-- The mismatch holds the field that is not expected. -/
@[simp]
theorem allSymbols_kind_extraField {f : Symbol} :
    AllSymbols P (MismatchKind.extraField f) ↔ P f := by
  simp [AllSymbols, symbols]

end recursive

end TaggedTuple
