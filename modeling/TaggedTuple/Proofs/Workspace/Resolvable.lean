import TaggedTuple.Proofs.Symbols.Calls
import TaggedTuple.Proofs.Workspace.Session

/-!
# Symbols stay resolvable

A session opens contexts and makes calls in them, in any order; several contexts may share a symbol
table or a cache. It records each reply with the table that was in use (`Session.run`).

A job is admitted when every symbol that it is handed was issued by the table in use, or occurs in a
reply that was given with that table (`Session.Admits`). In a session of admitted jobs every symbol
of every reply stays below the size of its table, whatever the session goes on with, admitted or
not; so every text, every report and every canonical form that is made of such symbols finds the
names that it needs (`Session.resolvable_of_admitted`).

The invariant is `Session.Sound`. One admitted job keeps it (`Session.Sound.step`), so a session of
admitted jobs does (`Session.Sound.run`). That no table loses a name needs no admission
(`Workspace.Sound.grows_run`).
-/

namespace TaggedTuple

open HasSymbols (symbols)

/-! ### Workspaces -/

namespace Workspace

variable {w w' : Workspace} {k : Nat}

/-- All tables and all caches are valid. -/
structure Sound (w : Workspace) : Prop where
  tables : ∀ (k : Nat) (table : SymbolTable), w.tables[k]? = some table → table.Valid
  caches : ∀ (k : Nat) (cache : LayoutCache), w.caches[k]? = some cache → cache.Valid

/-- No table loses a name. -/
def Grows (w w' : Workspace) : Prop := ∀ k, (w.tableAt k).Extends (w'.tableAt k)

/-- A workspace is one that it may grow to. -/
theorem Grows.refl (w : Workspace) : w.Grows w := fun _ => .refl _

/-- A workspace may grow twice. -/
theorem Grows.trans {w'' : Workspace} (h : w.Grows w') (h' : w'.Grows w'') : w.Grows w'' :=
  fun k => (h k).trans (h' k)

/-- A table that was never opened is empty. -/
theorem tableAt_of_size_le (hk : w.tables.size ≤ k) : w.tableAt k = .empty := by
  rw [tableAt, Array.getElem?_eq_none hk, Option.getD_none]

/-- All tables and caches of the empty workspace are valid. -/
theorem sound_empty : Workspace.empty.Sound where
  tables k table h := by simp [Workspace.empty] at h
  caches k cache h := by simp [Workspace.empty] at h

namespace Sound

variable (h : w.Sound)
include h

/-- The table of a context is valid. -/
theorem tableOf (c : Context) : (w.tableOf c).Valid := by
  unfold Workspace.tableOf
  cases htable : w.tables[c.table]? with
  | none => exact SymbolTable.valid_empty
  | some table => exact h.tables c.table table htable

/-- The cache of a context is valid. -/
theorem cacheOf (c : Context) : (w.cacheOf c).Valid := by
  unfold Workspace.cacheOf
  cases hcache : w.caches[c.cache]? with
  | none => exact LayoutCache.valid_empty _ _
  | some cache => exact h.caches c.cache cache hcache

/-- A new context starts with a valid table and a valid cache. -/
theorem openContext (config : Config) : (w.openContext config).2.Sound where
  tables k table hk := by
    have hpush : (w.tables.push .empty)[k]? = some table := hk
    rw [Array.getElem?_push] at hpush
    split_ifs at hpush
    · cases hpush
      exact SymbolTable.valid_empty
    · exact h.tables k table hpush
  caches k cache hk := by
    have hpush : (w.caches.push (.empty (w.caches.size + 1) config.canonicalizeLayouts))[k]?
        = some cache := hk
    rw [Array.getElem?_push] at hpush
    split_ifs at hpush
    · cases hpush
      exact LayoutCache.valid_empty _ _
    · exact h.caches k cache hpush

/-- A table may be replaced by a valid one. -/
theorem setTable (c : Context) {table : SymbolTable} (htable : table.Valid) :
    (w.setTable c table).Sound where
  tables k table' hk := by
    have hset : (w.tables.setIfInBounds c.table table)[k]? = some table' := hk
    rw [Array.getElem?_setIfInBounds] at hset
    split_ifs at hset
    · cases hset
      exact htable
    · exact h.tables k table' hset
  caches := h.caches

/-- A cache may be replaced by a valid one. -/
theorem setCache (c : Context) {cache : LayoutCache} (hcache : cache.Valid) :
    (w.setCache c cache).Sound where
  tables := h.tables
  caches k cache' hk := by
    have hset : (w.caches.setIfInBounds c.cache cache)[k]? = some cache' := hk
    rw [Array.getElem?_setIfInBounds] at hset
    split_ifs at hset
    · cases hset
      exact hcache
    · exact h.caches k cache' hset

end Sound

/-- A new context comes with a table that was not there before. -/
theorem grows_openContext (w : Workspace) (config : Config) : w.Grows (w.openContext config).2 := by
  intro k
  by_cases hk : k < w.tables.size
  · rw [tableAt_openContext hk]
    exact .refl _
  · have hnone : w.tables[k]? = none := Array.getElem?_eq_none (Nat.le_of_not_lt hk)
    have hempty : (w.openContext config).2.tableAt k = .empty := by
      show ((w.tables.push .empty)[k]?).getD .empty = _
      rw [Array.getElem?_push, hnone]
      split_ifs <;> rfl
    rw [tableAt_of_size_le (Nat.le_of_not_lt hk), hempty]
    exact .refl _

/-- Tables change only through tables that extend them. -/
theorem grows_setTable (w : Workspace) (c : Context) {table : SymbolTable}
    (h : (w.tableOf c).Extends table) : w.Grows (w.setTable c table) := by
  intro k
  by_cases hk : k < w.tables.size
  · rw [tableAt_setTable hk]
    split_ifs with hc
    · exact hc ▸ h
    · exact .refl _
  · have hsize : (w.setTable c table).tables.size ≤ k := by
      show (w.tables.setIfInBounds c.table table).size ≤ k
      rw [Array.size_setIfInBounds]
      exact Nat.le_of_not_lt hk
    rw [tableAt_of_size_le (Nat.le_of_not_lt hk), tableAt_of_size_le hsize]
    exact .refl _

/-- The reply to a call in a context. -/
def perform (w : Workspace) (c : Context) (call : Context.Call) : Context.Reply × Workspace :=
  let (reply, table, cache) := call.perform (w.tableOf c) (w.cacheOf c)
  (reply, (w.setTable c table).setCache c cache)

/-- The table of the context is the one that the call left. -/
theorem tableAt_perform {c : Context} (hc : c.table < w.tables.size) (call : Context.Call) :
    (w.perform c call).2.tableAt c.table = (call.perform (w.tableOf c) (w.cacheOf c)).2.1 := by
  show (w.setTable c (call.perform (w.tableOf c) (w.cacheOf c)).2.1).tableAt c.table = _
  rw [tableAt_setTable hc, if_pos rfl]

end Workspace

/-! ### Sessions -/

/-- A workspace, and the replies that were given so far, each with the position of the symbol table
that was in use. -/
structure Session where
  workspace : Workspace
  replies : List (Nat × Context.Reply)

namespace Session

/-- What happens in a session. -/
inductive Job where
  | openContext (config : Config)
  | call (c : Context) (call : Context.Call)

/-- A session in which nothing has happened yet. -/
def start : Session := ⟨.empty, []⟩

/-- Does a job. -/
def step (σ : Session) : Job → Session
  | .openContext config => { σ with workspace := (σ.workspace.openContext config).2 }
  | .call c call =>
    let (reply, w) := σ.workspace.perform c call
    ⟨w, σ.replies ++ [(c.table, reply)]⟩

/-- Does jobs in turn. -/
def run (σ : Session) (jobs : List Job) : Session := jobs.foldl step σ

/-- The symbol was issued by the table at a position, or occurs in a reply given with that table. -/
def Known (σ : Session) (k : Nat) (s : Symbol) : Prop :=
  (σ.workspace.tableAt k).Issued s ∨ ∃ x ∈ σ.replies, x.1 = k ∧ s ∈ symbols x.2

/-- The job works with a table of the workspace and is handed symbols of that table only. -/
def Admits (σ : Session) : Job → Prop
  | .openContext _ => True
  | .call c call => c.table < σ.workspace.tables.size ∧ AllSymbols (σ.Known c.table) call

/-- Each job is admitted when its turn comes. -/
def AdmitsAll (σ : Session) : List Job → Prop
  | [] => True
  | job :: jobs => σ.Admits job ∧ (σ.step job).AdmitsAll jobs

/-! Whether a session is admitted can be computed. -/

instance (σ : Session) (k : Nat) : DecidablePred (σ.Known k) :=
  fun _ => inferInstanceAs (Decidable (_ ∨ _))

instance (σ : Session) : DecidablePred σ.Admits
  | .openContext _ => inferInstanceAs (Decidable True)
  | .call c call => inferInstanceAs (Decidable (c.table < σ.workspace.tables.size ∧
      ∀ s ∈ symbols call, σ.Known c.table s))

/-- Admission is checked job by job. -/
def decideAdmitsAll (σ : Session) : (jobs : List Job) → Decidable (σ.AdmitsAll jobs)
  | [] => inferInstanceAs (Decidable True)
  | job :: jobs =>
    have := (σ.step job).decideAdmitsAll jobs
    inferInstanceAs (Decidable (σ.Admits job ∧ (σ.step job).AdmitsAll jobs))

instance (σ : Session) : DecidablePred σ.AdmitsAll := σ.decideAdmitsAll

variable {σ : Session}

/-! ### Whatever happens -/

/-- Jobs in two parts are done one part after the other. -/
theorem run_append (σ : Session) (jobs more : List Job) :
    σ.run (jobs ++ more) = (σ.run jobs).run more :=
  List.foldl_append

/-- A job, admitted or not, leaves valid tables and caches, and no table loses a name. -/
theorem grows_step (h : σ.workspace.Sound) (job : Job) :
    (σ.step job).workspace.Sound ∧ σ.workspace.Grows (σ.step job).workspace := by
  cases job with
  | openContext config => exact ⟨h.openContext config, σ.workspace.grows_openContext config⟩
  | call c call =>
      have hcall : AllSymbols (fun _ => True) call := fun _ _ => trivial
      have hkeeps := Context.Call.keeps_perform hcall (h.tableOf c) (h.cacheOf c) fun _ _ => trivial
      refine ⟨(h.setTable c hkeeps.table_valid).setCache c hkeeps.cache_valid, ?_⟩
      exact σ.workspace.grows_setTable c hkeeps.table_extends

/-- No jobs take a name away from a symbol. -/
theorem grows_run (h : σ.workspace.Sound) (jobs : List Job) :
    σ.workspace.Grows (σ.run jobs).workspace := by
  induction jobs generalizing σ with
  | nil => exact .refl _
  | cons job jobs ih =>
      obtain ⟨hsound, hgrows⟩ := grows_step h job
      exact hgrows.trans (ih hsound)

/-! ### Admitted jobs -/

/-- Valid tables and caches, and replies that hold symbols of their tables only. -/
structure Sound (σ : Session) : Prop where
  workspace : σ.workspace.Sound
  replies : ∀ x ∈ σ.replies, AllSymbols (σ.workspace.tableAt x.1).Issued x.2

/-- Before the first job nothing was handed out. -/
theorem sound_start : start.Sound where
  workspace := Workspace.sound_empty
  replies _ hx := absurd hx List.not_mem_nil

namespace Sound

variable (h : σ.Sound)
include h

/-- What occurs in a reply was issued. -/
theorem issued_of_known {k : Nat} {s : Symbol} (hs : σ.Known k s) :
    (σ.workspace.tableAt k).Issued s := by
  rcases hs with hs | ⟨x, hx, rfl, hs⟩
  · exact hs
  · exact h.replies x hx s hs

/-- The replies so far hold symbols of their tables after any more jobs. -/
theorem replies_run (jobs : List Job) :
    ∀ x ∈ σ.replies, AllSymbols ((σ.run jobs).workspace.tableAt x.1).Issued x.2 :=
  fun x hx => (h.replies x hx).imp fun _ hs => hs.mono (grows_run h.workspace jobs x.1)

/-- A job that is admitted keeps a session sound. -/
theorem step {job : Job} (hjob : σ.Admits job) : (σ.step job).Sound := by
  obtain ⟨hworkspace, hgrows⟩ := grows_step h.workspace job
  have hreplies : ∀ x ∈ σ.replies,
      AllSymbols ((σ.step job).workspace.tableAt x.1).Issued x.2 := h.replies_run [job]
  cases job with
  | openContext config => exact ⟨hworkspace, hreplies⟩
  | call c call =>
      obtain ⟨hc, hcall⟩ := hjob
      refine ⟨hworkspace, fun x hx => ?_⟩
      rcases List.mem_append.mp hx with hx | hx
      · exact hreplies x hx
      · -- the new reply: what the call was handed, and what it interned
        obtain rfl := List.mem_singleton.mp hx
        have htable := Workspace.tableAt_perform hc call
        have hhanded : AllSymbols ((σ.workspace.perform c call).2.tableAt c.table).Issued call :=
          hcall.imp fun s hs => (h.issued_of_known hs).mono (hgrows c.table)
        have hkeeps := Context.Call.keeps_perform hhanded (h.workspace.tableOf c)
          (h.workspace.cacheOf c) fun s hs => htable ▸ hs
        exact hkeeps.reply

/-- Jobs that are admitted one after the other keep a session sound. -/
theorem run {jobs : List Job} (hjobs : σ.AdmitsAll jobs) : (σ.run jobs).Sound := by
  induction jobs generalizing σ with
  | nil => exact h
  | cons job jobs ih =>
      obtain ⟨hjob, hjobs⟩ := hjobs
      exact ih (h.step hjob) hjobs

end Sound

/-- In a session in which every job is handed only symbols that the symbol table in use issued, or
that a reply given with that table holds, every symbol that occurs in a reply is below the size of
its table, and it stays so whatever happens afterwards. Hence texts, paths, reports and canonical
forms that are made of the symbols known by then never lack a name. -/
theorem resolvable_of_admitted {jobs : List Job} (hjobs : start.AdmitsAll jobs)
    (more : List Job) :
    (∀ k reply, (k, reply) ∈ (start.run jobs).replies → ∀ s ∈ symbols reply,
      s.id < ((start.run (jobs ++ more)).workspace.tableAt k).size) ∧
    ∀ k, ((start.run (jobs ++ more)).workspace.tableAt k).name?.Resolves
      ((start.run jobs).Known k) := by
  have hsound := sound_start.run hjobs
  rw [run_append]
  refine ⟨fun k reply hreply => hsound.replies_run more (k, reply) hreply, fun k => ?_⟩
  apply Symbol.Names.resolves_of_knows
  intro s hs
  have hissued := (hsound.issued_of_known hs).mono (grows_run hsound.workspace more k)
  exact SymbolTable.issued_iff.mp hissued

/-- A session that loads a tuple with new names, and then asks for one of its fields elsewhere. -/
def loadingSession : List Job :=
  let c : Context := ⟨{}, 0, 0, {}⟩
  [.openContext {}, .call c (.symbols (.intern .infallible "x")),
    .call c (.values (.finish { named := [(⟨1⟩, .int 7)] })),
    .call c (.values (.load ⟨some "Line", 0, [], [("from", .int 1), ("to", .int 2)]⟩)),
    .call c (.matchTuple { fields := [(⟨4⟩, .shorthand)] } ⟨⟨0, 0, .ofPositional 0⟩, [], []⟩)]

/-- The failure names a field that the loaded tuple brought in. -/
theorem resolvable_of_admitted_of_loaded_names :
    let w := (start.run (loadingSession ++ [.openContext {}])).workspace
    (∀ k reply, (k, reply) ∈ (start.run loadingSession).replies → ∀ s ∈ symbols reply,
      s.id < (w.tableAt k).size) ∧
      ∀ span,
        ((MatchFailure.missingField ⟨4⟩).diagnose span (w.tableAt 0).name?).isSome = true := by
  intro w
  have hadmitted : start.AdmitsAll loadingSession := by decide
  obtain ⟨hreplies, hresolves⟩ := resolvable_of_admitted hadmitted [.openContext {}]
  have hknown : (start.run loadingSession).Known 0 ⟨4⟩ := by decide
  exact ⟨hreplies, fun span =>
    (hresolves 0).failure _ span (allSymbols_failure_missingField.mpr hknown)⟩

end Session

end TaggedTuple
