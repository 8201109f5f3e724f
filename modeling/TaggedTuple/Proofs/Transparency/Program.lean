import TaggedTuple.Proofs.Transparency.Canonical
import TaggedTuple.Proofs.Transparency.Matching

/-!
# Canonicalization is transparent

A program is a list of operations on tuples. Every tuple that an operation makes and every value
that a match binds goes into a register that later operations may read, and so does every canonical
form. `Machine.run` runs a program and lists the answers.

Whether the cache canonicalizes does not show in the answers (`run_transparent`): two runs that
start with the same symbol table and with any two valid caches agree at every step. The invariant is
`Machine.Agree`: equal symbol tables, and registers that agree one by one. Each operation keeps it
(`Machine.Agree.step`), so each program does (`Machine.Agree.run`).
-/

namespace TaggedTuple

/-- Where an operation takes a value from. -/
inductive Operand where
  | int (n : Int64)
  | str (s : String)
  /-- A value that an earlier operation made or bound. -/
  | register (i : Nat)

/-- One step of a program. Tuples and canonical forms are given by register. -/
inductive Operation where
  | intern (name : String)
  /-- Finishes a builder with the given entries. -/
  | finish (tag : Option Symbol) (positional : List Operand) (named : List (Symbol × Operand))
  | update (tuple : Nat) (key : TupleKey) (value : Operand)
  | slice (tuple start stop : Nat)
  | project (tuple : Nat) (fields : List Symbol)
  | toCanonical (tuple : Nat)
  | fromCanonical (form : Nat)
  /-- Reads a canonical form that did not come out of the same run. -/
  | fromLiteral (form : CanonicalTuple Operand)
  | compare (left right : Operand)
  | matchTuple (p : TuplePattern Pattern) (tuple : Nat)
  | matchValue (p : Pattern) (value : Operand)
  | matchArms (arms : List (TuplePattern Pattern)) (tuple : Nat)

/-- What an operation answers. -/
inductive Answer where
  /-- A register is empty, or holds no tuple where one is needed. -/
  | undefined
  | symbol (result : Except SymbolTable.InternError Symbol)
  | tuple (result : Except TupleError (Tuple Value))
  | form (result : Except EncodingError (CanonicalTuple Value))
  | read (result : Except EncodingError (Tuple Value))
  | verdict (equal : Bool)
  | outcome (result : Except PatternError (MatchOutcome Value))
  | arm (result : Except PatternError (Option (ArmMatch Value)))

namespace Answer

/-- The values that an answer puts into registers. -/
def values : Answer → List Value
  | .tuple (.ok t) => [.tuple t]
  | .read (.ok t) => [.tuple t]
  | .outcome (.ok (.matched b)) => b.entries.map Prod.snd
  | .arm (.ok (some a)) => a.bindings.entries.map Prod.snd
  | _ => []

/-- The canonical forms that an answer puts into registers. -/
def forms : Answer → List (CanonicalTuple Value)
  | .form (.ok x) => [x]
  | _ => []

/-- The same answer: results of the same kind, errors of the same kind, values that agree. -/
inductive Agree : Answer → Answer → Prop
  | undefined : Agree .undefined .undefined
  | symbol (result : Except SymbolTable.InternError Symbol) :
    Agree (.symbol result) (.symbol result)
  | tuple {x y : Except TupleError (Tuple Value)}
    (h : ExceptRel TupleError.SameVariant Tuple.Agree x y) : Agree (.tuple x) (.tuple y)
  | form {x y : Except EncodingError (CanonicalTuple Value)}
    (h : ExceptRel EncodingError.SameVariant CanonicalTuple.Agree x y) : Agree (.form x) (.form y)
  | read {x y : Except EncodingError (Tuple Value)}
    (h : ExceptRel Eq Tuple.Agree x y) : Agree (.read x) (.read y)
  | verdict (equal : Bool) : Agree (.verdict equal) (.verdict equal)
  | outcome {x y : Except PatternError (MatchOutcome Value)}
    (h : ExceptRel PatternError.SameVariant MatchOutcome.Agree x y) :
    Agree (.outcome x) (.outcome y)
  | arm {x y : Except PatternError (Option (ArmMatch Value))}
    (h : ExceptRel PatternError.SameVariant (Option.Rel ArmMatch.Agree) x y) :
    Agree (.arm x) (.arm y)

/-- Answers that agree put values that agree into registers. -/
theorem Agree.values {a a' : Answer} (h : a.Agree a') :
    List.Forall₂ Value.Agree a.values a'.values := by
  cases h with
  | undefined => exact .nil
  | symbol result => exact .nil
  | verdict equal => exact .nil
  | form _ => exact .nil
  | tuple h =>
      cases h with
      | ok htu => exact .cons htu .nil
      | error _ => exact .nil
  | read h =>
      cases h with
      | ok htu => exact .cons htu .nil
      | error _ => exact .nil
  | outcome h =>
      cases h with
      | ok houtcome =>
          cases houtcome with
          | matched hb => exact (forall₂_pairs_iff.mp hb).2
          | failed _ => exact .nil
      | error _ => exact .nil
  | arm h =>
      cases h with
      | ok harm =>
          cases harm with
          | none => exact .nil
          | some harm => exact (forall₂_pairs_iff.mp harm.2).2
      | error _ => exact .nil

/-- Answers that agree put forms that agree into registers. -/
theorem Agree.forms {a a' : Answer} (h : a.Agree a') :
    List.Forall₂ CanonicalTuple.Agree a.forms a'.forms := by
  cases h with
  | form h =>
      cases h with
      | ok hxy => exact .cons hxy .nil
      | error _ => exact .nil
  | _ => exact .nil

end Answer

/-- The state between two operations. Registers are numbered in the order in which they were
filled. -/
structure Machine where
  table : SymbolTable
  cache : LayoutCache
  values : List Value := []
  forms : List (CanonicalTuple Value) := []

namespace Machine

/-- The value of an operand. -/
def value? (m : Machine) : Operand → Option Value
  | .int n => some (.int n)
  | .str s => some (.str s)
  | .register i => m.values[i]?

/-- The tuple in a register. -/
def tuple? (m : Machine) (i : Nat) : Option (Tuple Value) := m.values[i]?.bind Value.tuple?

/-- The values of operands that have keys. -/
def entries? {κ : Type} (m : Machine) (xs : List (κ × Operand)) : Option (List (κ × Value)) :=
  xs.mapM fun x => (m.value? x.2).map (x.1, ·)

/-- A builder with the values of operands. -/
def builder? (m : Machine) (tag : Option Symbol) (positional : List Operand)
    (named : List (Symbol × Operand)) : Option (TupleBuilder Value) := do
  return { tag, positional := ← positional.mapM m.value?, named := ← m.entries? named }

/-- A canonical form with the values of operands. -/
def literal? (m : Machine) (x : CanonicalTuple Operand) : Option (CanonicalTuple Value) := do
  return { tag := x.tag, positionalCount := x.positionalCount,
           positional := ← x.positional.mapM m.value?, named := ← m.entries? x.named }

/-- The answer of an operation that needs an argument, with the cache that it leaves. -/
def answer {α β : Type} (m : Machine) (wrap : β → Answer) (argument : Option α)
    (run : α → LayoutCache → β × LayoutCache) : Answer × SymbolTable × LayoutCache :=
  match argument with
  | none => (.undefined, m.table, m.cache)
  | some a => (wrap (run a m.cache).1, m.table, (run a m.cache).2)

/-- The answer of reading a canonical form, with the table and the cache that it leaves. -/
def readForm (m : Machine) : Option (CanonicalTuple Value) → Answer × SymbolTable × LayoutCache
  | none => (.undefined, m.table, m.cache)
  | some x => (.read (x.toTuple m.table m.cache).1, (x.toTuple m.table m.cache).2)

/-- The answer of an operation, with the table and the cache that it leaves. -/
def evaluate (m : Machine) : Operation → Answer × SymbolTable × LayoutCache
  | .intern name => (.symbol (m.table.tryIntern name).1, (m.table.tryIntern name).2, m.cache)
  | .finish tag positional named =>
    m.answer .tuple (m.builder? tag positional named) TupleBuilder.finish
  | .update tuple key value =>
    m.answer .tuple ((m.tuple? tuple).bind fun t => (m.value? value).map (t, ·))
      fun x cache => (x.1.withUpdated key x.2, cache)
  | .slice tuple start stop =>
    m.answer .tuple (m.tuple? tuple) fun t => t.slicePositional start stop
  | .project tuple fields => m.answer .tuple (m.tuple? tuple) fun t => t.projectNamed fields
  | .toCanonical tuple =>
    m.answer .form (m.tuple? tuple) fun t cache => (t.toCanonical m.table.name?, cache)
  | .fromCanonical form => m.readForm m.forms[form]?
  | .fromLiteral form => m.readForm (m.literal? form)
  | .compare left right =>
    m.answer .verdict ((m.value? left).bind fun v => (m.value? right).map (v, ·))
      fun x cache => (x.1 == x.2, cache)
  | .matchTuple p tuple => m.answer .outcome (m.tuple? tuple) p.matchTuple
  | .matchValue p value => m.answer .outcome (m.value? value) p.matchValue
  | .matchArms arms tuple => m.answer .arm (m.tuple? tuple) (TuplePattern.matchArms arms)

/-- Carries out an operation and fills the registers. -/
def step (m : Machine) (o : Operation) : Answer × Machine :=
  let (a, table, cache) := m.evaluate o
  (a, { table, cache, values := m.values ++ a.values, forms := m.forms ++ a.forms })

/-- Carries out the operations of a program in turn. -/
def run (m : Machine) : List Operation → List Answer × Machine
  | [] => ([], m)
  | o :: program =>
    let (a, m) := m.step o
    let (as, m) := m.run program
    (a :: as, m)

/-! ### The invariant -/

/-- Equal tables, valid caches, and registers that agree one by one. -/
structure Agree (m m' : Machine) : Prop where
  table_eq : m.table = m'.table
  table_valid : m.table.Valid
  left : m.cache.Valid
  right : m'.cache.Valid
  values : List.Forall₂ Value.Agree m.values m'.values
  forms : List.Forall₂ CanonicalTuple.Agree m.forms m'.forms

/-- The answers agree, the tables are equal, and both caches are valid. -/
structure EvaluationAgree (x y : Answer × SymbolTable × LayoutCache) : Prop where
  answer : x.1.Agree y.1
  table_eq : x.2.1 = y.2.1
  table_valid : x.2.1.Valid
  left : x.2.2.Valid
  right : y.2.2.Valid

namespace Agree

variable {m m' : Machine} (h : m.Agree m')
include h

/-! ### Operands -/

/-- Operands stand for values that agree. -/
theorem value? (o : Operand) : Option.Rel Value.Agree (m.value? o) (m'.value? o) := by
  cases o with
  | int n => exact .some (Value.agree_int n)
  | str s => exact .some (Value.agree_str s)
  | register i => exact forall₂_getElem? h.values i

/-- Registers hold tuples that agree. -/
theorem tuple? (i : Nat) : Option.Rel Tuple.Agree (m.tuple? i) (m'.tuple? i) := by
  unfold Machine.tuple?
  refine optionRel_bind (forall₂_getElem? h.values i) fun v w hvw => ?_
  rcases hvw.cases with ⟨n, rfl, rfl⟩ | ⟨s, rfl, rfl⟩ | ⟨t, u, rfl, rfl, -⟩
  · exact .none
  · exact .none
  · exact .some hvw

/-- Entries stand for values that agree. -/
theorem entries? {κ : Type} (xs : List (κ × Operand)) :
    Option.Rel (List.Forall₂ EntryAgree) (m.entries? xs) (m'.entries? xs) := by
  unfold Machine.entries?
  refine optionRel_mapM (fun x => ?_) xs
  exact optionRel_map (h.value? x.2) fun v w hvw => ⟨rfl, hvw⟩

/-- Builders are filled with values that agree. -/
theorem builder? (tag : Option Symbol) (positional : List Operand)
    (named : List (Symbol × Operand)) :
    Option.Rel TupleBuilder.Agree (m.builder? tag positional named)
      (m'.builder? tag positional named) := by
  unfold Machine.builder?
  refine optionRel_bind (optionRel_mapM h.value? positional) fun vs ws hvalues => ?_
  exact optionRel_bind (h.entries? named) fun _ _ hnamed => .some ⟨rfl, hvalues, hnamed⟩

/-- Canonical forms are filled with values that agree. -/
theorem literal? (x : CanonicalTuple Operand) :
    Option.Rel CanonicalTuple.Agree (m.literal? x) (m'.literal? x) := by
  unfold Machine.literal?
  refine optionRel_bind (optionRel_mapM h.value? x.positional) fun vs ws hvalues => ?_
  exact optionRel_bind (h.entries? x.named) fun _ _ hnamed => .some ⟨rfl, rfl, hvalues, hnamed⟩

/-! ### Operations -/

/-- An operation on arguments that agree has answers that do. -/
theorem answer {α β : Type} {r : α → α → Prop} {s : β → β → Prop} {wrap : β → Answer}
    (hwrap : ∀ b b', s b b' → (wrap b).Agree (wrap b')) {argument argument' : Option α}
    (hargument : Option.Rel r argument argument') {run run' : α → LayoutCache → β × LayoutCache}
    (hrun : ∀ a a', r a a' → CachedRel s (run a m.cache) (run' a' m'.cache)) :
    EvaluationAgree (m.answer wrap argument run) (m'.answer wrap argument' run') := by
  cases hargument with
  | none => exact ⟨.undefined, h.table_eq, h.table_valid, h.left, h.right⟩
  | some ha =>
      obtain ⟨hresult, hleft, hright⟩ := hrun _ _ ha
      exact ⟨hwrap _ _ hresult, h.table_eq, h.table_valid, hleft, hright⟩

/-- Reading forms that agree has answers that do. -/
theorem readForm {x y : Option (CanonicalTuple Value)} (hxy : Option.Rel CanonicalTuple.Agree x y) :
    EvaluationAgree (m.readForm x) (m'.readForm y) := by
  cases hxy with
  | none => exact ⟨.undefined, h.table_eq, h.table_valid, h.left, h.right⟩
  | @some x y hxy =>
      obtain ⟨⟨hresult, hleft, hright⟩, htable⟩ := hxy.toTuple m.table h.left h.right
      unfold Machine.readForm
      rw [← h.table_eq]
      exact ⟨.read hresult, htable, (x.grows_toTuple m.table m.cache).valid h.table_valid, hleft,
        hright⟩

/-- Every operation answers in the same way. -/
theorem evaluate (o : Operation) : EvaluationAgree (m.evaluate o) (m'.evaluate o) := by
  cases o with
  | intern name =>
      unfold Machine.evaluate
      rw [← h.table_eq]
      exact ⟨.symbol _, rfl, (m.table.attempted_tryIntern name).grows.valid h.table_valid, h.left,
        h.right⟩
  | finish tag positional named =>
      unfold Machine.evaluate
      refine h.answer (fun _ _ hxy => .tuple hxy) (h.builder? tag positional named) ?_
      intro b b' hb
      obtain ⟨hresult, hleft, hright⟩ := hb.finish h.left h.right
      exact ⟨hresult.of_eq fun _ => rfl, hleft, hright⟩
  | update tuple key value =>
      unfold Machine.evaluate
      have hargument : Option.Rel (fun x y => Tuple.Agree x.1 y.1 ∧ Value.Agree x.2 y.2)
          ((m.tuple? tuple).bind fun t => (m.value? value).map (t, ·))
          ((m'.tuple? tuple).bind fun t => (m'.value? value).map (t, ·)) :=
        optionRel_bind (h.tuple? tuple) fun t u htu =>
          optionRel_map (h.value? value) fun v w hvw => ⟨htu, hvw⟩
      refine h.answer (fun _ _ hxy => .tuple hxy) hargument ?_
      rintro ⟨t, v⟩ ⟨u, w⟩ ⟨htu, hvw⟩
      exact ⟨(htu.withUpdated key hvw).of_eq fun _ => rfl, h.left, h.right⟩
  | slice tuple start stop =>
      unfold Machine.evaluate
      refine h.answer (fun _ _ hxy => .tuple hxy) (h.tuple? tuple) fun t u htu => ?_
      obtain ⟨hresult, hleft, hright⟩ := htu.slicePositional start stop h.left h.right
      exact ⟨hresult.of_eq fun _ => rfl, hleft, hright⟩
  | project tuple fields =>
      unfold Machine.evaluate
      exact h.answer (fun _ _ hxy => .tuple hxy) (h.tuple? tuple) fun t u htu =>
        htu.projectNamed (List.Perm.refl fields) h.left h.right
  | toCanonical tuple =>
      unfold Machine.evaluate
      refine h.answer (fun _ _ hxy => .form hxy) (h.tuple? tuple) fun t u htu => ?_
      rw [← h.table_eq]
      exact ⟨htu.toCanonical fun _ _ _ => h.table_valid.name?_injective, h.left, h.right⟩
  | fromCanonical form => exact h.readForm (forall₂_getElem? h.forms form)
  | fromLiteral form => exact h.readForm (h.literal? form)
  | compare left right =>
      unfold Machine.evaluate
      have hargument : Option.Rel (fun x y => Value.Agree x.1 y.1 ∧ Value.Agree x.2 y.2)
          ((m.value? left).bind fun v => (m.value? right).map (v, ·))
          ((m'.value? left).bind fun v => (m'.value? right).map (v, ·)) :=
        optionRel_bind (h.value? left) fun v v' hv =>
          optionRel_map (h.value? right) fun w w' hw => ⟨hv, hw⟩
      refine h.answer (s := Eq) ?_ hargument ?_
      · rintro equal _ rfl
        exact .verdict equal
      · rintro ⟨v, w⟩ ⟨v', w'⟩ ⟨hv, hw⟩
        exact ⟨hv.beq_eq hw, h.left, h.right⟩
  | matchTuple p tuple =>
      unfold Machine.evaluate
      exact h.answer (fun _ _ hxy => .outcome hxy) (h.tuple? tuple) fun t u htu =>
        TuplePattern.matchTuple_agree h.left h.right htu p
  | matchValue p value =>
      unfold Machine.evaluate
      exact h.answer (fun _ _ hxy => .outcome hxy) (h.value? value) fun v w hvw =>
        Pattern.matchValue_agree h.left h.right p hvw
  | matchArms arms tuple =>
      unfold Machine.evaluate
      exact h.answer (fun _ _ hxy => .arm hxy) (h.tuple? tuple) fun t u htu =>
        TuplePattern.matchArms_agree h.left h.right htu arms

/-- An operation answers in the same way and keeps the invariant. -/
theorem step (o : Operation) :
    (m.step o).1.Agree (m'.step o).1 ∧ Agree (m.step o).2 (m'.step o).2 := by
  obtain ⟨hanswer, htable, hvalid, hleft, hright⟩ := h.evaluate o
  refine ⟨hanswer, htable, hvalid, hleft, hright, ?_, ?_⟩
  · exact List.rel_append h.values hanswer.values
  · exact List.rel_append h.forms hanswer.forms

/-- A program is answered in the same way, operation by operation. -/
theorem run (program : List Operation) :
    List.Forall₂ Answer.Agree (m.run program).1 (m'.run program).1 ∧
      Agree (m.run program).2 (m'.run program).2 := by
  induction program generalizing m m' with
  | nil => exact ⟨.nil, h⟩
  | cons o program ih =>
      obtain ⟨hanswer, hstep⟩ := h.step o
      obtain ⟨hanswers, hrun⟩ := ih hstep
      exact ⟨.cons hanswer hanswers, hrun⟩

end Agree

/-! ### Programs -/

/-- Canonicalization is transparent: whatever the two caches keep and whether they canonicalize, a
program gets the same answers and leaves the same symbol table. -/
theorem run_transparent (program : List Operation) {table : SymbolTable} (htable : table.Valid)
    {c d : LayoutCache} (hc : c.Valid) (hd : d.Valid) :
    List.Forall₂ Answer.Agree (run ⟨table, c, [], []⟩ program).1
        (run ⟨table, d, [], []⟩ program).1 ∧
      (run ⟨table, c, [], []⟩ program).2.table = (run ⟨table, d, [], []⟩ program).2.table := by
  have h : Agree ⟨table, c, [], []⟩ ⟨table, d, [], []⟩ := ⟨rfl, htable, hc, hd, .nil, .nil⟩
  obtain ⟨hanswers, hrun⟩ := h.run program
  exact ⟨hanswers, hrun.table_eq⟩

/-- Records with their fields in two orders. A canonicalizing cache has them share a layout, one
that does not makes two. -/
theorem run_transparent_of_reordered_fields :
    let program : List Operation :=
      [.intern "x", .intern "y",
        .finish none [] [(⟨1⟩, .int 1), (⟨2⟩, .str "a")],
        .finish none [.register 0] [(⟨2⟩, .int 2), (⟨1⟩, .register 0)],
        .finish none [] [(⟨2⟩, .str "a"), (⟨1⟩, .int 1)],
        .compare (.register 0) (.register 2), .project 2 [⟨2⟩, ⟨1⟩],
        .matchTuple { fields := [(⟨1⟩, .shorthand)], namedRest := some ⟨0⟩ } 1,
        .toCanonical 2, .fromCanonical 0]
    List.Forall₂ Answer.Agree (run ⟨.empty, .empty 0 true, [], []⟩ program).1
        (run ⟨.empty, .empty 1 false, [], []⟩ program).1 ∧
      (run ⟨.empty, .empty 0 true, [], []⟩ program).2.table
        = (run ⟨.empty, .empty 1 false, [], []⟩ program).2.table := by
  intro program
  exact run_transparent program SymbolTable.valid_empty (LayoutCache.valid_empty 0 true)
    (LayoutCache.valid_empty 1 false)

end Machine

end TaggedTuple
