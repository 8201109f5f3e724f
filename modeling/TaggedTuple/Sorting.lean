/-!
# Sorting by a key

Stable insertion sort by a key, and the search for a key that occurs twice. In a sorted list equal
keys are neighbours, so the first pair of neighbours with equal keys holds the least repeated key.
-/

namespace TaggedTuple

variable {α κ : Type} [LT κ] [DecidableLT κ]

/-- Puts an element in front of the first one whose key is not less than its own. -/
def insertByKey (key : α → κ) (a : α) : List α → List α
  | [] => [a]
  | b :: rest => if key b < key a then b :: insertByKey key a rest else a :: b :: rest

/-- Sorts by ascending key; elements with equal keys keep their order. -/
def sortByKey (key : α → κ) : List α → List α
  | [] => []
  | a :: rest => insertByKey key a (sortByKey key rest)

/-- The key of the first two neighbours with equal keys. -/
def firstRepeatedKey? {α κ : Type} [DecidableEq κ] (key : α → κ) : List α → Option κ
  | a :: b :: rest => if key a = key b then some (key a) else firstRepeatedKey? key (b :: rest)
  | _ => none

end TaggedTuple
