import TaggedTuple.Proofs.SymbolTable.History
import TaggedTuple.Proofs.Symbols.Comparison
import TaggedTuple.Proofs.Symbols.Matching
import TaggedTuple.Proofs.Symbols.Texts
import TaggedTuple.Workspace

/-!
# Calls and the symbols in their replies

A call is one operation of the library, with the symbol table and the layout cache that it works on:
it interns a name, builds, reads or changes a tuple of values or of types, converts it to its
canonical form or back, matches it, or compares two types. `Context.Call.perform` gives the reply,
and the table and the cache that are left.

`Keeps` says what all calls have in common: the reply holds symbols that the call was handed, or
symbols with names in the table that is left; no symbol loses its name; the table and the cache stay
valid (`Context.Call.keeps_perform`).
-/

namespace TaggedTuple

open HasSymbols (symbols)

/-! ### The symbol table -/

namespace SymbolTable

variable {P : Symbol → Prop} {table table' : SymbolTable}

/-- The symbol is one of those that the table gave out. -/
def Issued (table : SymbolTable) (s : Symbol) : Prop := s.id < table.size

instance (table : SymbolTable) : DecidablePred table.Issued :=
  fun s => inferInstanceAs (Decidable (s.id < table.size))

/-- The symbols that a table gave out are those that it has a name for. -/
theorem issued_iff {s : Symbol} : table.Issued s ↔ table.name?.Knows s :=
  isSome_name?_iff.symm

/-- A symbol with a name was given out. -/
theorem issued_of_name? {s : Symbol} {name : String} (h : table.name? s = some name) :
    table.Issued s := by
  apply isSome_name?_iff.mp
  rw [h]
  rfl

/-- A table that extends another one gave out all symbols of that one. -/
theorem Issued.mono {s : Symbol} (h : table.Issued s) (hextends : table.Extends table') :
    table'.Issued s := by
  obtain ⟨name, hname⟩ := Option.isSome_iff_exists.mp (isSome_name?_iff.mpr h)
  exact issued_of_name? (hextends hname)

/-- A reply holds symbols of the table that is left only. -/
theorem Valid.allSymbols_answer (h : table.Valid) (call : Call)
    (hP : ∀ s, (table.answer call).2.Issued s → P s) : AllSymbols P (table.answer call).1 := by
  cases call with
  | find name =>
      show AllSymbols P (table.find? name)
      cases hfind : table.find? name with
      | none => exact allSymbols_none
      | some s =>
          have hname : table.name? s = some name := (h name s).mp hfind
          exact allSymbols_some.mpr (allSymbols_symbol.mpr (hP s (issued_of_name? hname)))
  | intern entry name =>
      by_cases hroom : table.find? name = none → table.size < capacity
      · rw [answer_intern hroom] at hP ⊢
        exact allSymbols_symbol.mpr (hP _ (issued_of_name? (h.name?_intern name)))
      · obtain ⟨hfind, hfull⟩ := Classical.not_imp.mp hroom
        rw [answer_intern_of_full hfind (Nat.le_of_not_lt hfull)]
        -- the name was refused, and there is no symbol in the reply
        cases entry <;> exact fun s hs => absurd hs List.not_mem_nil

/-- No call makes a valid table invalid. -/
theorem Valid.answer (h : table.Valid) (call : Call) : (table.answer call).2.Valid := by
  cases call with
  | find name => exact h
  | intern entry name =>
      by_cases hroom : table.find? name = none → table.size < capacity
      · rw [answer_intern hroom]
        exact h.intern name
      · obtain ⟨hfind, hfull⟩ := Classical.not_imp.mp hroom
        rw [answer_intern_of_full hfind (Nat.le_of_not_lt hfull)]
        exact h

end SymbolTable

/-- What a call leaves behind: a reply in which only symbols with the property occur, a valid table
in which no symbol lost its name, and a valid cache. -/
structure Keeps {ρ : Type} [HasSymbols ρ] (P : Symbol → Prop) (table : SymbolTable)
    (result : ρ × SymbolTable × LayoutCache) : Prop where
  reply : AllSymbols P result.1
  table_extends : table.Extends result.2.1
  table_valid : result.2.1.Valid
  cache_valid : result.2.2.Valid

/-- An operation that does not touch the table keeps what its reply and its cache keep. -/
theorem SymbolTable.Valid.keeps {ρ : Type} [HasSymbols ρ] {P : Symbol → Prop} {table : SymbolTable}
    (h : table.Valid) {reply : ρ} {c : LayoutCache} (hreply : AllSymbols P reply ∧ c.Valid) :
    Keeps P table (reply, table, c) :=
  ⟨hreply.1, .refl table, h, hreply.2⟩

/-! ### Tuples -/

/-- An operation on tuples with members of one kind. -/
inductive TupleCall (α : Type) where
  | construct (shared : SharedLayout) (positional : List α) (named : List (Symbol × α))
  | finish (b : TupleBuilder α)
  | get (t : Tuple α) (key : TupleKey)
  | update (t : Tuple α) (key : TupleKey) (value : α)
  | slice (t : Tuple α) (start stop : Nat)
  | project (t : Tuple α) (fields : List Symbol)
  | map (t : Tuple α) (g : α → α)
  | tryMap (t : Tuple α) (g : α → Except String α)
  | toCanonical (t : Tuple α)
  | load (x : CanonicalTuple α)

/-- What an operation on tuples gives back. -/
inductive TupleReply (α : Type) where
  | member (result : Except TupleError α)
  | tuple (result : Except TupleError (Tuple α))
  | mapped (result : Except String (Tuple α))
  | form (result : Except EncodingError (CanonicalTuple α))
  | loaded (result : Except EncodingError (Tuple α))

section tuples

variable {α : Type} [HasSymbols α] {P : Symbol → Prop}

/-- The symbols that a call is handed. A function that is mapped over a tuple hands over what it
makes of the members. -/
instance : HasSymbols (TupleCall α) where
  symbols
    | .construct shared positional named => symbols (shared, positional, named)
    | .finish b => symbols b
    | .get t key => symbols (t, key)
    | .update t key value => symbols (t, key, value)
    | .slice t _ _ => symbols t
    | .project t fields => symbols (t, fields)
    | .map t g => symbols (t, t.members.map g)
    | .tryMap t g => symbols (t, t.members.map g)
    | .toCanonical t => symbols t
    | .load x => symbols x

instance : HasSymbols (TupleReply α) where
  symbols
    | .member result => symbols result
    | .tuple result => symbols result
    | .mapped result => symbols result
    | .form result => symbols result
    | .loaded result => symbols result

namespace TupleCall

/-- The reply to a call, with the table and the cache that are left. -/
def perform (table : SymbolTable) (cache : LayoutCache) :
    TupleCall α → TupleReply α × SymbolTable × LayoutCache
  | .construct shared positional named =>
    (.tuple (Tuple.construct shared positional named), table, cache)
  | .finish b => (.tuple (b.finish cache).1, table, (b.finish cache).2)
  | .get t key => (.member (t.getKey key), table, cache)
  | .update t key value => (.tuple (t.withUpdated key value), table, cache)
  | .slice t start stop =>
    (.tuple (t.slicePositional start stop cache).1, table, (t.slicePositional start stop cache).2)
  | .project t fields =>
    (.tuple (t.projectNamed fields cache).1, table, (t.projectNamed fields cache).2)
  | .map t g => (.tuple (.ok (t.map g)), table, cache)
  | .tryMap t g => (.mapped (t.mapM g), table, cache)
  | .toCanonical t => (.form (t.toCanonical table.name?), table, cache)
  | .load x => (.loaded (x.toTuple table cache).1, (x.toTuple table cache).2)

/-- No operation on tuples brings in a symbol that it was not handed and that has no name in the
table it leaves. -/
theorem keeps_perform {call : TupleCall α} (hcall : AllSymbols P call) {table : SymbolTable}
    (htable : table.Valid) {cache : LayoutCache} (hcache : cache.Valid)
    (hP : ∀ s, (call.perform table cache).2.1.Issued s → P s) :
    Keeps P table (call.perform table cache) := by
  cases call with
  | construct shared positional named =>
      obtain ⟨hshared, hmembers⟩ := allSymbols_pair.mp hcall
      obtain ⟨hpositional, hnamed⟩ := allSymbols_pair.mp hmembers
      exact htable.keeps ⟨Tuple.allSymbols_construct hshared hpositional hnamed, hcache⟩
  | finish b => exact htable.keeps (TupleBuilder.allSymbols_finish hcall hcache)
  | get t key =>
      obtain ⟨ht, hkey⟩ := allSymbols_pair.mp hcall
      exact htable.keeps ⟨Tuple.allSymbols_getKey ht hkey, hcache⟩
  | update t key value =>
      obtain ⟨ht, hentry⟩ := allSymbols_pair.mp hcall
      obtain ⟨hkey, hvalue⟩ := allSymbols_pair.mp hentry
      exact htable.keeps ⟨Tuple.allSymbols_withUpdated ht hkey hvalue, hcache⟩
  | slice t start stop =>
      exact htable.keeps (Tuple.allSymbols_slicePositional hcall hcache start stop)
  | project t fields =>
      obtain ⟨ht, hfields⟩ := allSymbols_pair.mp hcall
      exact htable.keeps (Tuple.allSymbols_projectNamed ht hcache hfields)
  | map t g =>
      obtain ⟨ht, hmade⟩ := allSymbols_pair.mp hcall
      have hmembers := List.forall_mem_map.mp (allSymbols_list_iff.mp hmade)
      exact htable.keeps ⟨Tuple.allSymbols_map ht hmembers, hcache⟩
  | tryMap t g =>
      obtain ⟨ht, hmade⟩ := allSymbols_pair.mp hcall
      have hmembers := List.forall_mem_map.mp (allSymbols_list_iff.mp hmade)
      exact htable.keeps ⟨Tuple.allSymbols_mapM ht hmembers, hcache⟩
  | toCanonical t => exact htable.keeps ⟨Tuple.allSymbols_toCanonical hcall _, hcache⟩
  | load x =>
      have hnamed : ∀ s, ((x.toTuple table cache).2.1.name? s).isSome = true → P s :=
        fun s hs => hP s (SymbolTable.isSome_name?_iff.mp hs)
      obtain ⟨hreply, hcache⟩ := CanonicalTuple.allSymbols_toTuple hcall htable hcache hnamed
      have hgrows := x.grows_toTuple table cache
      exact ⟨hreply, hgrows.extends_names, hgrows.valid htable, hcache⟩

end TupleCall

end tuples

/-! ### All calls -/

namespace Context

/-- What the library can be asked for in a context. -/
inductive Call where
  | symbols (call : SymbolTable.Call)
  /-- Declares a layout that no cache keeps. -/
  | declare (positional : Nat) (fields : List Symbol) (tag : Option Symbol)
  | layout (r : LayoutCache.Request)
  | values (call : TupleCall Value)
  | types (call : TupleCall Ty)
  /-- Assigns a type to each member of a tuple of values. -/
  | typing (t : Tuple Value) (g : Value → Ty)
  | validate (p : Pattern)
  | matchValue (p : Pattern) (v : Value)
  | matchTuple (p : TuplePattern Pattern) (t : Tuple Value)
  | matchArms (arms : List (TuplePattern Pattern)) (t : Tuple Value)
  | matchLayout (p : TuplePattern Pattern) (l : Layout)
  | checkSubtype (policy : TuplePolicy) (sub sup : Ty)
  | checkEquivalent (policy : TuplePolicy) (a b : Ty)

/-- What a call gives back. -/
inductive Reply where
  | symbols (reply : SymbolTable.Reply)
  | declared (result : Except TupleError Layout)
  | layout (result : Except TupleError SharedLayout)
  | values (reply : TupleReply Value)
  | types (reply : TupleReply Ty)
  | validated (result : Except PatternError Unit)
  | outcome (result : Except PatternError (MatchOutcome Value))
  | arm (result : Except PatternError (Option (ArmMatch Value)))
  | places (result : Except PatternError (MatchOutcome SlotBinding))
  | compared (result : TypeCheck)

/-- The symbols that a call is handed. -/
instance : HasSymbols Call where
  symbols
    | .symbols _ => []
    | .declare _ fields tag => HasSymbols.symbols (fields, tag)
    | .layout r => HasSymbols.symbols r
    | .values call => HasSymbols.symbols call
    | .types call => HasSymbols.symbols call
    | .typing t g => HasSymbols.symbols (t, t.members.map g)
    | .validate p => HasSymbols.symbols p
    | .matchValue p v => HasSymbols.symbols (p, v)
    | .matchTuple p t => HasSymbols.symbols (p, t)
    | .matchArms arms t => HasSymbols.symbols (arms, t)
    | .matchLayout p l => HasSymbols.symbols (p, l)
    | .checkSubtype _ sub sup => HasSymbols.symbols (sub, sup)
    | .checkEquivalent _ a b => HasSymbols.symbols (a, b)

instance : HasSymbols Reply where
  symbols
    | .symbols reply => HasSymbols.symbols reply
    | .declared result => HasSymbols.symbols result
    | .layout result => HasSymbols.symbols result
    | .values reply => HasSymbols.symbols reply
    | .types reply => HasSymbols.symbols reply
    | .validated result => HasSymbols.symbols result
    | .outcome result => HasSymbols.symbols result
    | .arm result => HasSymbols.symbols result
    | .places result => HasSymbols.symbols result
    | .compared result => HasSymbols.symbols result

namespace Call

/-- The reply to a call, with the table and the cache that are left. -/
def perform (table : SymbolTable) (cache : LayoutCache) :
    Call → Reply × SymbolTable × LayoutCache
  | .symbols call => (.symbols (table.answer call).1, (table.answer call).2, cache)
  | .declare positional fields tag => (.declared (Layout.build positional fields tag), table, cache)
  | .layout r => (.layout (cache.serve r).1, table, (cache.serve r).2)
  | .values call => (.values (call.perform table cache).1, (call.perform table cache).2)
  | .types call => (.types (call.perform table cache).1, (call.perform table cache).2)
  | .typing t g => (.types (.tuple (.ok (t.map g))), table, cache)
  | .validate p => (.validated p.validate, table, cache)
  | .matchValue p v => (.outcome (p.matchValue v cache).1, table, (p.matchValue v cache).2)
  | .matchTuple p t => (.outcome (p.matchTuple t cache).1, table, (p.matchTuple t cache).2)
  | .matchArms arms t =>
    (.arm (TuplePattern.matchArms arms t cache).1, table, (TuplePattern.matchArms arms t cache).2)
  | .matchLayout p l => (.places (p.matchLayout l), table, cache)
  | .checkSubtype policy sub sup => (.compared (Ty.checkSubtype policy sub sup), table, cache)
  | .checkEquivalent policy a b => (.compared (Ty.checkEquivalent policy a b), table, cache)

/-- No call brings in a symbol that it was not handed and that has no name in the table it
leaves. -/
theorem keeps_perform {P : Symbol → Prop} {call : Call} (hcall : AllSymbols P call)
    {table : SymbolTable} (htable : table.Valid) {cache : LayoutCache} (hcache : cache.Valid)
    (hP : ∀ s, (call.perform table cache).2.1.Issued s → P s) :
    Keeps P table (call.perform table cache) := by
  cases call with
  | symbols call =>
      exact ⟨htable.allSymbols_answer call hP, table.extends_answer call, htable.answer call,
        hcache⟩
  | declare positional fields tag =>
      obtain ⟨hfields, htag⟩ := allSymbols_pair.mp hcall
      exact htable.keeps ⟨Layout.allSymbols_build hfields htag, hcache⟩
  | layout r => exact htable.keeps (hcache.allSymbols_serve hcall)
  | values call =>
      have hkeeps := TupleCall.keeps_perform hcall htable hcache hP
      exact ⟨hkeeps.reply, hkeeps.table_extends, hkeeps.table_valid, hkeeps.cache_valid⟩
  | types call =>
      have hkeeps := TupleCall.keeps_perform hcall htable hcache hP
      exact ⟨hkeeps.reply, hkeeps.table_extends, hkeeps.table_valid, hkeeps.cache_valid⟩
  | typing t g =>
      obtain ⟨ht, hmade⟩ := allSymbols_pair.mp hcall
      have hmembers := List.forall_mem_map.mp (allSymbols_list_iff.mp hmade)
      exact htable.keeps ⟨Tuple.allSymbols_map ht hmembers, hcache⟩
  | validate p => exact htable.keeps ⟨p.allSymbols_validate, hcache⟩
  | matchValue p v =>
      obtain ⟨hp, hv⟩ := allSymbols_pair.mp hcall
      exact htable.keeps (Pattern.allSymbols_matchValue hp hv hcache)
  | matchTuple p t =>
      obtain ⟨hp, ht⟩ := allSymbols_pair.mp hcall
      exact htable.keeps (TuplePattern.allSymbols_matchTuple hp ht hcache)
  | matchArms arms t =>
      obtain ⟨harms, ht⟩ := allSymbols_pair.mp hcall
      exact htable.keeps (TuplePattern.allSymbols_matchArms harms ht hcache)
  | matchLayout p l =>
      obtain ⟨hp, hl⟩ := allSymbols_pair.mp hcall
      exact htable.keeps ⟨TuplePattern.allSymbols_matchLayout hp hl, hcache⟩
  | checkSubtype policy sub sup =>
      obtain ⟨hsub, hsup⟩ := allSymbols_pair.mp hcall
      exact htable.keeps ⟨Ty.reportsOnly_checkSubtype policy hsub sup hsup, hcache⟩
  | checkEquivalent policy a b =>
      obtain ⟨ha, hb⟩ := allSymbols_pair.mp hcall
      exact htable.keeps ⟨Ty.reportsOnly_checkEquivalent policy ha b hb, hcache⟩

end Call

end Context

end TaggedTuple
