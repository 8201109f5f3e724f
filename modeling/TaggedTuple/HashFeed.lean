/-!
# What is fed to a hash function

A hash function reads a value as a sequence of items. Which hash function reads them is left open:
values with equal feeds have equal hashes under every one.
-/

namespace TaggedTuple

/-- One item of a feed. -/
inductive HashItem where
  | number (n : Int)
  | text (s : String)
  deriving DecidableEq, Repr

/-- The sequence of items that a value feeds to a hash function. -/
abbrev HashFeed := List HashItem

namespace HashFeed

/-- The feed of a count or an index. -/
def ofNat (n : Nat) : HashFeed := [.number n]

/-- The feed of a list: its length, then its elements. -/
def ofList (feeds : List HashFeed) : HashFeed := ofNat feeds.length ++ feeds.flatten

end HashFeed

end TaggedTuple
