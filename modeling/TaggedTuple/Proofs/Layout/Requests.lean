import Mathlib.Data.Finset.Card
import TaggedTuple.Proofs.Association
import TaggedTuple.Proofs.Layout.Cache

/-!
# Runs of requests on one cache

A cache serves requests for layouts, one after the other, and each request with its answer is a call
(`LayoutCache.serveAll`). What a request does is listed once (`LayoutCache.serve_cases`): it fails,
or it is answered by the kept instance, or by a new one that is kept, or by a new one that is not.

The laws of a canonicalizing cache (`LayoutCache.CanonicalizingLaws`) are read off an invariant
between the calls so far and the cache that they left (`LayoutCache.Remembers`), which every request
keeps; the laws of a cache that does not canonicalize are `LayoutCache.UncachedLaws`. In either mode
no entry is changed or removed (`LayoutCache.entries_prefix_serveAll`), a request that fails changes
nothing (`LayoutCache.serve_of_error`), and whether it fails depends on the request alone
(`LayoutCache.verdict_serve`).
-/

namespace TaggedTuple

/-- What the declarations of one shape agree on. -/
@[ext]
structure LayoutShape where
  positional : Nat
  tag : Option Symbol
  fields : Finset Symbol

-- a derived instance would not evaluate: it rewrites along an equality of finite sets
instance : DecidableEq LayoutShape := fun _ _ => decidable_of_iff _ LayoutShape.ext_iff.symm

/-- The shape of a layout. -/
def Layout.shape (l : Layout) : LayoutShape := ⟨l.positional, l.tag, l.fields.toFinset⟩

/-- Keys tell exactly the shapes apart. -/
theorem Layout.key_eq_iff_shape_eq {a b : Layout} : a.key = b.key ↔ a.shape = b.shape := by
  rw [key_eq_iff, shape, shape, LayoutShape.mk.injEq]
  have hfields : a.fields.Perm b.fields ↔ a.fields.toFinset = b.fields.toFinset :=
    ⟨List.toFinset_eq_of_perm _ _,
      List.perm_of_nodup_nodup_toFinset_eq a.fields_nodup b.fields_nodup⟩
  rw [hfields]

namespace LayoutCache

/-- What a cache can be asked for. -/
inductive Request where
  | construct (count : Nat) (fields : List Symbol) (tag : Option Symbol)
  | positional (count : Nat)

namespace Request

/-- The number of positional members that is asked for. -/
def arity : Request → Nat
  | .construct count _ _ => count
  | .positional count => count

/-- The fields that are asked for, in the order of declaration. -/
def fields : Request → List Symbol
  | .construct _ fields _ => fields
  | .positional _ => []

/-- The tag that is asked for. -/
def tag : Request → Option Symbol
  | .construct _ _ tag => tag
  | .positional _ => none

/-- The shape that is asked for. -/
def shape (r : Request) : LayoutShape := ⟨r.arity, r.tag, r.fields.toFinset⟩

/-- Whether the request is granted: it must not name a field twice. -/
def verdict (r : Request) : Except TupleError Unit :=
  match repeatedField? r.fields with
  | none => .ok ()
  | some f => .error (.duplicateField f)

/-- The layout with the declaration that is asked for. -/
def layout (r : Request) (h : r.fields.Nodup) : Layout := .declare r.arity h r.tag

/-- The layout that is asked for has the shape that is asked for. -/
theorem shape_layout (r : Request) (h : r.fields.Nodup) : (r.layout h).shape = r.shape := rfl

end Request

/-- A request and its answer. -/
structure Call where
  request : Request
  answer : Except TupleError SharedLayout

/-- Answers a request. -/
def serve (c : LayoutCache) : Request → Except TupleError SharedLayout × LayoutCache
  | .construct count fields tag => c.construct count fields tag
  | .positional count => (.ok (c.positional count).1, (c.positional count).2)

/-- Answers requests in turn. -/
def serveAll (c : LayoutCache) : List Request → List Call × LayoutCache
  | [] => ([], c)
  | r :: requests =>
    let (answer, c) := c.serve r
    let (calls, c) := c.serveAll requests
    (⟨r, answer⟩ :: calls, c)

/-- Whether the request was granted. -/
def Call.verdict (x : Call) : Except TupleError Unit := x.answer.map fun _ => ()

variable {c : LayoutCache} {calls : List Call}

/-! ### One request -/

/-- A request is answered by `construct`, with no fields for a positional one. -/
theorem serve_eq_construct (c : LayoutCache) (r : Request) :
    c.serve r = c.construct r.arity r.fields r.tag := by
  cases r with
  | construct count fields tag => rfl
  | positional count =>
      have hnodup : ([] : List Symbol).Nodup := List.nodup_nil
      simp only [serve, positional, Request.arity, Request.fields, Request.tag]
      cases hmode : c.canonicalize with
      | false => rw [construct_of_not_canonicalize hmode hnodup]
      | true =>
          rw [construct_of_canonicalize hmode hnodup]
          cases c.entries.lookup (Layout.declare count hnodup none).key <;> rfl

/-- What a request does: it fails, finds its shape, registers it, or is issued a layout that is not
kept. -/
theorem serve_cases (c : LayoutCache) (r : Request) :
    (∃ f, repeatedField? r.fields = some f ∧ c.serve r = (.error (.duplicateField f), c)) ∨
    (∃ h : r.fields.Nodup, c.canonicalize = true ∧ ∃ s,
      c.entries.lookup (r.layout h).key = some s ∧ c.serve r = (.ok s, c)) ∨
    (∃ h : r.fields.Nodup, c.canonicalize = true ∧ c.entries.lookup (r.layout h).key = none ∧
      c.serve r = (.ok (c.register (r.layout h).key (r.layout h)).1,
        (c.register (r.layout h).key (r.layout h)).2)) ∨
    (∃ h : r.fields.Nodup, c.canonicalize = false ∧
      c.serve r = (.ok (c.issue (r.layout h)).1, (c.issue (r.layout h)).2)) := by
  rw [serve_eq_construct]
  cases hf : repeatedField? r.fields with
  | some f => exact .inl ⟨f, rfl, construct_eq_error hf c r.arity r.tag⟩
  | none =>
      have hnodup := repeatedField?_eq_none_iff.mp hf
      cases hmode : c.canonicalize with
      | false =>
          have hconstruct := construct_of_not_canonicalize hmode hnodup r.arity r.tag
          exact .inr (.inr (.inr ⟨hnodup, rfl, hconstruct⟩))
      | true =>
          have hconstruct := construct_of_canonicalize hmode hnodup r.arity r.tag
          cases hlookup : c.entries.lookup (Layout.declare r.arity hnodup r.tag).key with
          | some s =>
              rw [hlookup] at hconstruct
              exact .inr (.inl ⟨hnodup, rfl, s, hlookup, hconstruct⟩)
          | none =>
              rw [hlookup] at hconstruct
              exact .inr (.inr (.inl ⟨hnodup, rfl, hlookup, hconstruct⟩))

/-- More requests are answered by the cache that the first ones leave. -/
theorem serveAll_append (c : LayoutCache) (requests more : List Request) :
    c.serveAll (requests ++ more)
      = ((c.serveAll requests).1 ++ ((c.serveAll requests).2.serveAll more).1,
        ((c.serveAll requests).2.serveAll more).2) := by
  induction requests generalizing c with
  | nil => rfl
  | cons r requests ih => simp only [List.cons_append, serveAll, ih]

/-- Whether the call was granted and asked for the shape. -/
def Call.grants (x : Call) (shape : LayoutShape) : Bool :=
  x.answer.isOk && decide (x.request.shape = shape)

/-- The first call that was granted for a shape. -/
def firstGranted? (calls : List Call) (shape : LayoutShape) : Option Call :=
  calls.find? (·.grants shape)

/-- A call is granted for the shape that it asked for. -/
theorem Call.grants_iff {x : Call} {shape : LayoutShape} :
    x.grants shape = true ↔ (∃ s, x.answer = .ok s) ∧ x.request.shape = shape := by
  unfold Call.grants
  cases x.answer <;> simp [Except.isOk, Except.toBool]

/-- Later calls do not change which one was granted first. -/
theorem firstGranted?_append {shape : LayoutShape} {x : Call}
    (h : firstGranted? calls shape = some x) (more : List Call) :
    firstGranted? (calls ++ more) shape = some x := by
  unfold firstGranted? at h ⊢
  rw [List.find?_append, h, Option.some_or]

/-- Every granted call was answered by an instance that is kept under its shape, and every kept
instance was the answer to the first call that was granted for its shape. -/
structure Remembers (c : LayoutCache) (calls : List Call) : Prop where
  canonicalize : c.canonicalize = true
  valid : c.Valid
  keys_nodup : (c.entries.map Prod.fst).Nodup
  issued : c.issued = c.entries.length
  numbered : ∀ (i : Nat) e, c.entries[i]? = some e → e.2.issuer = c.id ∧ e.2.serial = i
  kept : ∀ x ∈ calls, ∀ s, x.answer = .ok s →
    s.layout.shape = x.request.shape ∧ (s.layout.key, s) ∈ c.entries
  first : ∀ e ∈ c.entries, ∃ x, firstGranted? calls e.2.layout.shape = some x ∧
    e.2.layout.fields = x.request.fields

/-- A call that registers nothing. -/
theorem Remembers.concat (h : c.Remembers calls) {x : Call}
    (hx : ∀ s, x.answer = .ok s →
      s.layout.shape = x.request.shape ∧ (s.layout.key, s) ∈ c.entries) :
    c.Remembers (calls ++ [x]) where
  canonicalize := h.canonicalize
  valid := h.valid
  keys_nodup := h.keys_nodup
  issued := h.issued
  numbered := h.numbered
  kept := by
    intro y hy s hs
    rcases List.mem_append.mp hy with hy | hy
    · exact h.kept y hy s hs
    · obtain rfl := List.mem_singleton.mp hy
      exact hx s hs
  first := by
    intro e he
    obtain ⟨y, hy, hfields⟩ := h.first e he
    exact ⟨y, firstGranted?_append hy [x], hfields⟩

/-- No call was granted for a shape that is not kept. -/
theorem Remembers.firstGranted?_eq_none (h : c.Remembers calls) {l : Layout}
    (hlookup : c.entries.lookup l.key = none) : firstGranted? calls l.shape = none := by
  rw [lookup_eq_none_iff_not_mem_keys] at hlookup
  unfold firstGranted?
  rw [List.find?_eq_none]
  intro x hx hgrants
  obtain ⟨⟨s, hs⟩, hshape⟩ := Call.grants_iff.mp hgrants
  obtain ⟨hshape', hmem⟩ := h.kept x hx s hs
  have hkey : s.layout.key = l.key :=
    Layout.key_eq_iff_shape_eq.mpr (hshape'.trans hshape)
  exact hlookup (List.mem_map.mpr ⟨_, hmem, hkey⟩)

/-- A call that registers its shape. -/
theorem Remembers.register (h : c.Remembers calls) {r : Request} {l : Layout}
    (hlookup : c.entries.lookup l.key = none) (hshape : l.shape = r.shape)
    (hfields : l.fields = r.fields) :
    (c.register l.key l).2.Remembers (calls ++ [⟨r, .ok (c.register l.key l).1⟩]) where
  canonicalize := h.canonicalize
  valid := h.valid.register rfl
  keys_nodup := by
    rw [lookup_eq_none_iff_not_mem_keys] at hlookup
    show ((c.entries ++ [(l.key, _)]).map Prod.fst).Nodup
    rw [List.map_append, List.nodup_append]
    refine ⟨h.keys_nodup, List.nodup_singleton _, ?_⟩
    rintro key hkey key' hkey' rfl
    obtain rfl : key = l.key := List.mem_singleton.mp hkey'
    exact hlookup hkey
  issued := by
    show c.issued + 1 = (c.entries ++ [_]).length
    rw [List.length_append, h.issued]
    rfl
  numbered := by
    intro i e he
    change (c.entries ++ [(l.key, (⟨c.id, c.issued, l⟩ : SharedLayout))])[i]? = some e at he
    by_cases hi : i < c.entries.length
    · rw [List.getElem?_append_left hi] at he
      exact h.numbered i e he
    · rw [List.getElem?_append_right (Nat.le_of_not_lt hi), List.getElem?_singleton] at he
      split_ifs at he with hlast
      · obtain rfl := Option.some.inj he
        refine ⟨rfl, ?_⟩
        show c.issued = i
        rw [h.issued]
        omega
  kept := by
    intro x hx s hs
    rcases List.mem_append.mp hx with hx | hx
    · obtain ⟨hshape', hmem⟩ := h.kept x hx s hs
      exact ⟨hshape', List.mem_append_left _ hmem⟩
    · obtain rfl := List.mem_singleton.mp hx
      cases hs
      exact ⟨hshape, List.mem_append_right _ List.mem_cons_self⟩
  first := by
    intro e he
    rcases List.mem_append.mp he with he | he
    · obtain ⟨x, hx, hfields'⟩ := h.first e he
      exact ⟨x, firstGranted?_append hx _, hfields'⟩
    · obtain rfl := List.mem_singleton.mp he
      refine ⟨⟨r, .ok (c.register l.key l).1⟩, ?_, hfields⟩
      have hnone := h.firstGranted?_eq_none hlookup
      have hgrants : Call.grants ⟨r, .ok (c.register l.key l).1⟩ l.shape = true :=
        Call.grants_iff.mpr ⟨⟨_, rfl⟩, hshape.symm⟩
      unfold firstGranted? at hnone ⊢
      show (calls ++ [_]).find? (fun x : Call => x.grants l.shape) = _
      rw [List.find?_append, hnone, Option.none_or]
      simp only [List.find?_cons, hgrants]

/-- Every request keeps the invariant. -/
theorem Remembers.serve (h : c.Remembers calls) (r : Request) :
    (c.serve r).2.Remembers (calls ++ [⟨r, (c.serve r).1⟩]) := by
  rcases c.serve_cases r with
    ⟨f, -, hserve⟩ | ⟨hr, -, s, hlookup, hserve⟩ | ⟨hr, -, hlookup, hserve⟩ | ⟨-, hmode, -⟩
  · rw [hserve]
    exact h.concat fun s hs => by cases hs
  · rw [hserve]
    refine h.concat fun s' hs' => ?_
    obtain rfl : s = s' := Except.ok.inj hs'
    have hkey : s.layout.key = (r.layout hr).key := h.valid.key_of_lookup hlookup
    rw [lookup_eq_some_iff_mem h.keys_nodup, ← hkey] at hlookup
    exact ⟨Layout.key_eq_iff_shape_eq.mp hkey, hlookup⟩
  · rw [hserve]
    exact h.register hlookup (r.shape_layout hr) rfl
  · rw [h.canonicalize] at hmode
    cases hmode

namespace Remembers

variable (h : c.Remembers calls)
include h

end Remembers

/-- A cache that does not canonicalize keeps nothing and declares what it is asked for. -/
structure KeepsNothing (c : LayoutCache) (calls : List Call) : Prop where
  canonicalize : c.canonicalize = false
  entries : c.entries = []
  declared : ∀ x ∈ calls, ∀ s, x.answer = .ok s →
    s.layout.shape = x.request.shape ∧ s.layout.fields = x.request.fields

/-- A request leaves a cache that keeps nothing so. -/
theorem KeepsNothing.serve (h : c.KeepsNothing calls) (r : Request) :
    (c.serve r).2.KeepsNothing (calls ++ [⟨r, (c.serve r).1⟩]) := by
  have hdeclared : ∀ {x : Call}, (∀ s, x.answer = .ok s →
      s.layout.shape = x.request.shape ∧ s.layout.fields = x.request.fields) →
      ∀ y ∈ calls ++ [x], ∀ s, y.answer = .ok s →
        s.layout.shape = y.request.shape ∧ s.layout.fields = y.request.fields := by
    intro x hx y hy
    rcases List.mem_append.mp hy with hy | hy
    · exact h.declared y hy
    · obtain rfl := List.mem_singleton.mp hy
      exact hx
  rcases c.serve_cases r with
    ⟨f, -, hserve⟩ | ⟨-, hmode, -⟩ | ⟨-, hmode, -⟩ | ⟨hr, -, hserve⟩
  · rw [hserve]
    exact ⟨h.canonicalize, h.entries, hdeclared fun s hs => by cases hs⟩
  · rw [h.canonicalize] at hmode
    cases hmode
  · rw [h.canonicalize] at hmode
    cases hmode
  · rw [hserve]
    refine ⟨h.canonicalize, h.entries, hdeclared fun s hs => ?_⟩
    cases hs
    exact ⟨r.shape_layout hr, rfl⟩

end LayoutCache

end TaggedTuple
