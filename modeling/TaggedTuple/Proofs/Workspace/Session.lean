import TaggedTuple.Proofs.SymbolTable.History
import TaggedTuple.Workspace

/-!
# Sessions in which contexts share a symbol table

A session opens contexts and makes calls on their symbol tables, in any order; several contexts may
refer to one table. `Workspace.run` carries out the actions of a session and lists the outcomes.

What a table holds in the end depends only on the names that were asked for through the contexts
that refer to it (`Workspace.run_numbers_first_occurrences`): its symbols number these names in the
order in which they first occurred. The invariant is `SymbolTable.Records`. One action keeps it
(`Workspace.records_step`), so a session does (`Workspace.records_run`); an action on another table
does not touch it.
-/

namespace TaggedTuple

namespace Workspace

open SymbolTable (Call Reply Entry Records firstOccurrences capacity)

/-- What happens in a session. -/
inductive Action where
  | openContext (config : Config)
  /-- A call on the symbol table of a context. -/
  | call (c : Context) (call : Call)

/-- What an action gives back. -/
inductive Outcome where
  | opened (c : Context)
  | replied (reply : Reply)

/-- Carries out an action. -/
def step (w : Workspace) : Action → Outcome × Workspace
  | .openContext config => (.opened (w.openContext config).1, (w.openContext config).2)
  | .call c call => (.replied (w.call c call).1, (w.call c call).2)

/-- Carries out the actions of a session in turn. -/
def run (w : Workspace) : List Action → List Outcome × Workspace
  | [] => ([], w)
  | a :: actions =>
    let (outcome, w) := w.step a
    let (outcomes, w) := w.run actions
    (outcome :: outcomes, w)

/-- The symbol table at a position. -/
def tableAt (w : Workspace) (k : Nat) : SymbolTable := w.tables[k]?.getD .empty

/-- The name that an action asks the table at a position to intern. -/
def Action.asks? (k : Nat) : Action → Option String
  | .call c (.intern _ name) => if c.table = k then some name else none
  | _ => none

/-- The names that a session asks the table at a position to intern. -/
def asked (k : Nat) (actions : List Action) : List String := actions.filterMap (Action.asks? k)

variable {w : Workspace} {k : Nat}

/-! ### Runs -/

/-- Actions in two parts are carried out one part after the other. -/
theorem run_append (w : Workspace) (actions more : List Action) :
    w.run (actions ++ more)
      = ((w.run actions).1 ++ ((w.run actions).2.run more).1, ((w.run actions).2.run more).2) := by
  induction actions generalizing w with
  | nil => rfl
  | cons a actions ih => simp only [List.cons_append, run, ih]

/-- Every action has an outcome. -/
theorem length_run (w : Workspace) (actions : List Action) :
    (w.run actions).1.length = actions.length := by
  induction actions generalizing w with
  | nil => rfl
  | cons a actions ih => simp only [run, List.length_cons, ih]

/-- The names asked for in two parts are those of the first part, then those of the second one. -/
theorem asked_append (k : Nat) (actions more : List Action) :
    asked k (actions ++ more) = asked k actions ++ asked k more := by
  unfold asked
  rw [List.filterMap_append]

/-- The names asked for start with those of the first action. -/
theorem asked_cons (k : Nat) (a : Action) (actions : List Action) :
    asked k (a :: actions) = asked k [a] ++ asked k actions := asked_append k [a] actions

/-! ### One action -/

/-- A new context leaves the tables of the others alone. -/
theorem tableAt_openContext (hk : k < w.tables.size) (config : Config) :
    (w.openContext config).2.tableAt k = w.tableAt k := by
  show ((w.tables.push .empty)[k]?).getD .empty = (w.tables[k]?).getD .empty
  rw [Array.getElem?_push, if_neg (Nat.ne_of_lt hk)]

/-- Replacing the table of a context changes that table and no other one. -/
theorem tableAt_setTable (hk : k < w.tables.size) (c : Context) (table : SymbolTable) :
    (w.setTable c table).tableAt k = if c.table = k then table else w.tableAt k := by
  show ((w.tables.setIfInBounds c.table table)[k]?).getD .empty = _
  rw [Array.getElem?_setIfInBounds]
  by_cases hc : c.table = k
  · rw [if_pos hc, if_pos hc, if_pos (hc ▸ hk), Option.getD_some]
  · rw [if_neg hc, if_neg hc]
    rfl

/-- A call replaces the table that its context refers to and leaves the others alone. -/
theorem tableAt_call (hk : k < w.tables.size) (c : Context) (call : Call) :
    (w.call c call).2.tableAt k
      = if c.table = k then ((w.tableAt k).answer call).2 else w.tableAt k := by
  show (w.setTable c ((w.tableAt c.table).answer call).2).tableAt k = _
  rw [tableAt_setTable hk]
  by_cases hc : c.table = k
  · rw [if_pos hc, if_pos hc, hc]
  · rw [if_neg hc, if_neg hc]

/-- Looking a name up leaves the workspace as it was. -/
theorem call_find (w : Workspace) (c : Context) (name : String) :
    w.call c (.find name) = (.found ((w.tableOf c).find? name), w) := by
  have htables : w.tables.setIfInBounds c.table (w.tableOf c) = w.tables := by
    apply Array.ext_getElem?
    intro i
    rw [Array.getElem?_setIfInBounds]
    by_cases hc : c.table = i
    · subst hc
      rw [if_pos rfl]
      by_cases hi : c.table < w.tables.size
      · rw [if_pos hi]
        simp [tableOf, hi]
      · rw [if_neg hi]
        exact (Array.getElem?_eq_none (Nat.le_of_not_lt hi)).symm
    · rw [if_neg hc]
  show (Reply.found ((w.tableOf c).find? name),
    { w with tables := w.tables.setIfInBounds c.table (w.tableOf c) }) = _
  rw [htables]

/-- No table is ever closed. -/
theorem size_tables_step (w : Workspace) (a : Action) :
    w.tables.size ≤ (w.step a).2.tables.size := by
  cases a with
  | openContext config =>
      show w.tables.size ≤ (w.tables.push .empty).size
      rw [Array.size_push]
      exact Nat.le_succ _
  | call c call =>
      show w.tables.size ≤ (w.tables.setIfInBounds _ _).size
      exact Nat.le_of_eq Array.size_setIfInBounds.symm

/-- No action takes a name away from a symbol. -/
theorem extends_step (hk : k < w.tables.size) (a : Action) :
    (w.tableAt k).Extends ((w.step a).2.tableAt k) := by
  cases a with
  | openContext config =>
      show (w.tableAt k).Extends ((w.openContext config).2.tableAt k)
      rw [tableAt_openContext hk]
      exact .refl _
  | call c call =>
      show (w.tableAt k).Extends ((w.call c call).2.tableAt k)
      rw [tableAt_call hk]
      split_ifs
      · exact (w.tableAt k).extends_answer call
      · exact .refl _

/-- No actions take a name away from a symbol. -/
theorem extends_run (hk : k < w.tables.size) (actions : List Action) :
    (w.tableAt k).Extends ((w.run actions).2.tableAt k) := by
  induction actions generalizing w with
  | nil => exact .refl _
  | cons a actions ih =>
      have hk' : k < (w.step a).2.tables.size := Nat.lt_of_lt_of_le hk (w.size_tables_step a)
      exact (extends_step hk a).trans (ih hk')

/-- One more action adds the name that it asks for to what the table records. -/
theorem records_step {names : List String} (h : (w.tableAt k).Records names)
    (hk : k < w.tables.size) (a : Action)
    (hroom : (firstOccurrences (names ++ asked k [a])).length ≤ capacity) :
    ((w.step a).2.tableAt k).Records (names ++ asked k [a]) := by
  cases a with
  | openContext config =>
      show ((w.openContext config).2.tableAt k).Records (names ++ [])
      rw [tableAt_openContext hk, List.append_nil]
      exact h
  | call c call =>
      show ((w.call c call).2.tableAt k).Records (names ++ asked k [.call c call])
      rw [tableAt_call hk]
      cases call with
      | find name =>
          have hnothing : asked k [.call c (.find name)] = [] := rfl
          rw [hnothing, List.append_nil]
          split_ifs <;> exact h
      | intern entry name =>
          by_cases hc : c.table = k
          · have hname : asked k [.call c (.intern entry name)] = [name] := by
              simp [asked, Action.asks?, hc]
            rw [hname] at hroom ⊢
            rw [if_pos hc, h.answer_intern hroom]
            exact h.intern name
          · have hnothing : asked k [.call c (.intern entry name)] = [] := by
              simp [asked, Action.asks?, hc]
            rw [hnothing, List.append_nil, if_neg hc]
            exact h

/-! ### Sessions -/

/-- A session adds the names that it asks for to what the table records. -/
theorem records_run {names : List String} (h : (w.tableAt k).Records names)
    (hk : k < w.tables.size) (actions : List Action)
    (hroom : (firstOccurrences (names ++ asked k actions)).length ≤ capacity) :
    k < (w.run actions).2.tables.size ∧
      ((w.run actions).2.tableAt k).Records (names ++ asked k actions) := by
  induction actions generalizing w names with
  | nil =>
      have hnothing : asked k [] = [] := rfl
      rw [hnothing, List.append_nil]
      exact ⟨hk, h⟩
  | cons a actions ih =>
      rw [asked_cons, ← List.append_assoc] at hroom ⊢
      have hroom' : (firstOccurrences (names ++ asked k [a])).length ≤ capacity :=
        Nat.le_trans (SymbolTable.length_firstOccurrences_le _ _) hroom
      have hk' : k < (w.step a).2.tables.size := Nat.lt_of_lt_of_le hk (w.size_tables_step a)
      exact ih (records_step h hk a hroom') hk' hroom

/-- What a call on the table is answered, and what table it leaves, at its place in a session. -/
theorem run_intern {names : List String} (h : (w.tableAt k).Records names)
    (hk : k < w.tables.size) {c : Context} (hc : c.table = k) {before after : List Action}
    {entry : Entry} {name : String}
    (hroom : (firstOccurrences
      (names ++ asked k (before ++ .call c (.intern entry name) :: after))).length ≤ capacity) :
    ∃ s, ((w.run (before ++ .call c (.intern entry name) :: after)).2.tableAt k).name? s
        = some name ∧
      (w.run (before ++ .call c (.intern entry name) :: after)).1[before.length]?
        = some (.replied (.symbol s)) := by
  have hname : asked k [.call c (.intern entry name)] = [name] := by
    simp [asked, Action.asks?, hc]
  rw [asked_append, asked_cons, hname, ← List.append_assoc, ← List.append_assoc] at hroom
  -- the names asked for up to this call, and with it, fit as well
  have hroom' : (firstOccurrences (names ++ asked k before ++ [name])).length ≤ capacity :=
    Nat.le_trans (SymbolTable.length_firstOccurrences_le _ _) hroom
  have hroom'' : (firstOccurrences (names ++ asked k before)).length ≤ capacity :=
    Nat.le_trans (SymbolTable.length_firstOccurrences_le _ _) hroom'
  obtain ⟨hk', hbefore⟩ := records_run h hk before hroom''
  generalize hw' : (w.run before).2 = w' at hk' hbefore
  have hanswer := hbefore.answer_intern hroom' entry
  have hcall : w'.call c (.intern entry name)
      = (.symbol ((w'.tableAt k).intern name).1,
          w'.setTable c ((w'.tableAt k).intern name).2) := by
    show (((w'.tableAt c.table).answer (.intern entry name)).1, w'.setTable c
      ((w'.tableAt c.table).answer (.intern entry name)).2) = _
    rw [hc, hanswer]
  refine ⟨((w'.tableAt k).intern name).1, ?_, ?_⟩
  · rw [run_append, hw']
    have hsize := w'.size_tables_step (.call c (.intern entry name))
    apply extends_run (Nat.lt_of_lt_of_le hk' hsize) after
    show ((w'.call c (.intern entry name)).2.tableAt k).name? _ = _
    rw [hcall, tableAt_setTable hk', if_pos hc]
    exact hbefore.valid.name?_intern name
  · rw [run_append, hw', List.getElem?_append_right (Nat.le_of_eq (w.length_run before)),
      length_run, Nat.sub_self]
    show some (Outcome.replied (w'.call c (.intern entry name)).1) = _
    rw [hcall]

/-- A table that starts out empty numbers the names that it is asked for through all the contexts
that refer to it, in the order in which they first occur, as long as there is room for them. Its two
halves stay inverse to each other, every way to ask for a symbol answers the one that the name keeps
for the rest of the session, only a new name makes the table grow, and looking a name up changes
nothing. -/
theorem run_numbers_first_occurrences (hk : w.tables[k]? = some .empty) (actions : List Action)
    (hroom : (firstOccurrences (asked k actions)).length < capacity) :
    let t := (w.run actions).2.tableAt k
    (∀ name s, t.find? name = some s ↔ t.name? s = some name) ∧
    (∀ s, (t.name? s).isSome = true ↔ s.id < t.size) ∧
    t.name? Symbol.empty = some "" ∧
    t.names.toList = firstOccurrences (asked k actions) ∧
    (∀ before (c : Context) entry name after, c.table = k →
      actions = before ++ .call c (.intern entry name) :: after →
      ∃ s, t.find? name = some s ∧
        (w.run actions).1[before.length]? = some (.replied (.symbol s))) ∧
    (∀ more s name, t.name? s = some name →
      ((w.run (actions ++ more)).2.tableAt k).name? s = some name) ∧
    (∀ (c : Context) entry name, c.table = k →
      ((w.run (actions ++ [.call c (.intern entry name)])).2.tableAt k).size
        = t.size + if t.find? name = none then 1 else 0) ∧
    (∀ c name, (w.run actions).2.step (.call c (.find name))
      = (.replied (.found (((w.run actions).2.tableOf c).find? name)), (w.run actions).2)) := by
  intro t
  have hstart : (w.tableAt k).Records [] := by
    unfold tableAt
    rw [hk, Option.getD_some]
    exact SymbolTable.records_empty
  have hlt : k < w.tables.size := (Array.getElem?_eq_some_iff.mp hk).1
  have hroom' : (firstOccurrences ([] ++ asked k actions)).length ≤ capacity := Nat.le_of_lt hroom
  obtain ⟨hk', hrecords⟩ := records_run hstart hlt actions hroom'
  rw [List.nil_append] at hrecords
  refine ⟨hrecords.valid, fun s => SymbolTable.isSome_name?_iff, ?_, hrecords.names_eq, ?_, ?_, ?_,
    fun c name => ?_⟩
  · -- the empty name is the first of the first occurrences
    have hfirst : t.names.toList[0]? = some "" := by
      rw [hrecords.names_eq, firstOccurrences, List.eraseDups_cons]
      rfl
    rwa [Array.getElem?_toList] at hfirst
  · rintro before c entry name after hc rfl
    obtain ⟨s, hname, hreply⟩ := run_intern hstart hlt hc hroom'
    exact ⟨s, (hrecords.valid name s).mpr hname, hreply⟩
  · intro more s name hs
    rw [run_append]
    exact extends_run hk' more hs
  · intro c entry name hc
    have hanswer : t.answer (.intern entry name) = (.symbol (t.intern name).1, (t.intern name).2) :=
      SymbolTable.answer_intern (fun _ => hrecords.size_eq ▸ hroom) entry
    have hgrows := t.size_intern name
    rw [run_append]
    show (((w.run actions).2.call c (.intern entry name)).2.tableAt k).size = _
    rw [tableAt_call hk', if_pos hc]
    show (t.answer (.intern entry name)).2.size = _
    rw [hanswer]
    exact hgrows
  · show (Outcome.replied ((w.run actions).2.call c (.find name)).1,
      ((w.run actions).2.call c (.find name)).2) = _
    rw [call_find]

/-- A session in which two contexts share a table and a third one has a table of its own. -/
def sharedTableSession : List Action :=
  [.call ⟨{}, 0, 0, {}⟩ (.intern .infallible "b"), .call ⟨{}, 1, 0, {}⟩ (.intern .owned "c"),
    .call ⟨{}, 0, 1, {}⟩ (.intern .borrowed "a"), .call ⟨{}, 0, 1, {}⟩ (.intern .owned "b"),
    .call ⟨{}, 0, 0, {}⟩ (.find "d")]

/-- A workspace with two empty tables. -/
def twoTables : Workspace := { tables := #[.empty, .empty] }

/-- The two contexts get the same symbol for the same name. -/
theorem run_numbers_first_occurrences_of_shared_table :
    twoTables.tables[0]? = some .empty ∧
      (firstOccurrences (asked 0 sharedTableSession)).length < capacity ∧
      ((twoTables.run sharedTableSession).2.tableAt 0).names.toList = ["", "b", "a"] ∧
      (∃ s, ((twoTables.run sharedTableSession).2.tableAt 0).find? "b" = some s ∧
        (twoTables.run sharedTableSession).1[0]? = some (.replied (.symbol s))) ∧
      ∃ s, ((twoTables.run sharedTableSession).2.tableAt 0).find? "b" = some s ∧
        (twoTables.run sharedTableSession).1[3]? = some (.replied (.symbol s)) := by
  have hroom : (firstOccurrences (asked 0 sharedTableSession)).length < capacity := by decide
  have hlist : firstOccurrences (asked 0 sharedTableSession) = ["", "b", "a"] := by decide
  have hk : twoTables.tables[0]? = some .empty := rfl
  obtain ⟨-, -, -, hnames, hreply, -⟩ :=
    run_numbers_first_occurrences hk sharedTableSession hroom
  rw [hlist] at hnames
  refine ⟨hk, hroom, hnames, ?_, ?_⟩
  · exact hreply [] _ _ _ _ rfl rfl
  · exact hreply (sharedTableSession.take 3) _ _ _ _ rfl rfl

end Workspace

end TaggedTuple
