import TaggedTuple.Tuple

/-!
# Equality of tuples

Two tuples are equal when their layouts have the same shape, their positional members are equal in
order, and their named members are equal field by field. When both have the same layout instance
the named members are compared as they are stored; otherwise they are paired in ascending order of
their fields.

The members of the left tuple come as tests for the members of the right one. That lets a recursive
type of members define its equality by recursion on the left side alone.
-/

namespace TaggedTuple

namespace Tuple

variable {α : Type}

/-- Whether the tests hold of the values one by one, with none left over. -/
def agreeAll : List (α → Bool) → List α → Bool
  | [], [] => true
  | p :: ps, a :: as => p a && agreeAll ps as
  | _, _ => false

/-- Whether the tests hold of the values one by one, as far as both go. -/
def agreeZip (ps : List (α → Bool)) (as : List α) : Bool :=
  (ps.zip as).all fun (p, a) => p a

/-- Whether a tuple of tests accepts a tuple. -/
def accepts (t : Tuple (α → Bool)) (u : Tuple α) : Bool :=
  (t.shared == u.shared || t.layout.sameShape u.layout)
    && agreeAll t.positional u.positional
    && if t.shared = u.shared then agreeAll t.values u.values
      else agreeZip (t.namedAscending.map Prod.snd) (u.namedAscending.map Prod.snd)

/-- Equality of tuples whose members can be compared. -/
def equal [BEq α] (t u : Tuple α) : Bool := (t.map fun a b => a == b).accepts u

instance [BEq α] : BEq (Tuple α) := ⟨equal⟩

/-- What a tuple feeds to a hash function, its members' feeds given. -/
def hashFeed (t : Tuple HashFeed) : HashFeed :=
  t.layout.hashFeed ++ HashFeed.ofList t.positional ++ (t.namedAscending.map Prod.snd).flatten

end Tuple

end TaggedTuple
