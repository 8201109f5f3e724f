import TaggedTuple.Tuple.Equality

/-!
# Values

A value is an integer of 64 bits, a string, or a tuple of values. Functions on values go through
the members of a tuple by `Tuple.map`: the recursive clauses below map the members themselves, so
that the recursion follows the structure of the value, and the lemmas `…_tuple` restate them with
`Tuple.map`.
-/

namespace TaggedTuple

/-- What a tuple of the running program holds. -/
inductive Value where
  | int (n : Int64)
  | str (s : String)
  | tuple (t : Tuple Value)

namespace Value

instance : Inhabited Value := ⟨.int 0⟩

/-- The tuple inside, if the value is one. -/
def tuple? : Value → Option (Tuple Value)
  | .tuple t => some t
  | _ => none

/-- The number inside, if the value is one. -/
def int? : Value → Option Int64
  | .int n => some n
  | _ => none

/-- The text inside, if the value is one. -/
def str? : Value → Option String
  | .str s => some s
  | _ => none

/-! ### Equality -/

mutual

/-- Equality of values: numbers and strings as such, tuples as tuples. -/
def equal : Value → Value → Bool
  | .int a, b => b.int? == some a
  | .str a, b => b.str? == some a
  | .tuple t, b => b.tuple?.any (equalMembers t).accepts

/-- The tests for equality with the members of a tuple. -/
def equalMembers : Tuple Value → Tuple (Value → Bool)
  | ⟨shared, positional, values⟩ => ⟨shared, equalEach positional, equalEach values⟩

/-- The tests for equality with the values of a list. -/
def equalEach : List Value → List (Value → Bool)
  | [] => []
  | v :: vs => v.equal :: equalEach vs

end

instance : BEq Value := ⟨equal⟩

/-- The comparisons of a list of values, as a map. -/
theorem equalEach_eq_map (vs : List Value) : equalEach vs = vs.map equal := by
  induction vs with
  | nil => rfl
  | cons v vs ih => rw [equalEach, ih, List.map_cons]

/-- Tuple values are equal as their tuples are. -/
theorem equal_tuple (t u : Tuple Value) : equal (.tuple t) (.tuple u) = (t == u) := by
  obtain ⟨shared, positional, values⟩ := t
  rw [equal, equalMembers, equalEach_eq_map, equalEach_eq_map]
  rfl

/-! ### Hashing -/

mutual

/-- What a value feeds to a hash function: the number of its kind, then its content. -/
def hashFeed : Value → HashFeed
  | .int n => [.number 0, .number n.toInt]
  | .str s => [.number 1, .text s]
  | .tuple t => .number 2 :: (hashFeedMembers t).hashFeed

/-- The feeds of the members of a tuple. -/
def hashFeedMembers : Tuple Value → Tuple HashFeed
  | ⟨shared, positional, values⟩ => ⟨shared, hashFeedEach positional, hashFeedEach values⟩

/-- The feeds of the values of a list. -/
def hashFeedEach : List Value → List HashFeed
  | [] => []
  | v :: vs => v.hashFeed :: hashFeedEach vs

end

/-- The feeds of a list of values, as a map. -/
theorem hashFeedEach_eq_map (vs : List Value) : hashFeedEach vs = vs.map hashFeed := by
  induction vs with
  | nil => rfl
  | cons v vs ih => rw [hashFeedEach, ih, List.map_cons]

/-- A tuple value is fed as its tuple is, behind its number. -/
theorem hashFeed_tuple (t : Tuple Value) :
    hashFeed (.tuple t) = .number 2 :: (t.map hashFeed).hashFeed := by
  obtain ⟨shared, positional, values⟩ := t
  rw [hashFeed, hashFeedMembers, hashFeedEach_eq_map, hashFeedEach_eq_map]
  rfl

/-! ### Text -/

mutual

/-- The text of a value: numbers in decimal, strings as they stand, tuples with their names. -/
def render (names : Symbol.Names) : Value → Option String
  | .int n => some (toString n.toInt)
  | .str s => some s
  | .tuple t => (renderMembers names t).render names

/-- The texts of the members of a tuple. -/
def renderMembers (names : Symbol.Names) : Tuple Value → Tuple (Option String)
  | ⟨shared, positional, values⟩ =>
    ⟨shared, renderEach names positional, renderEach names values⟩

/-- The texts of the values of a list. -/
def renderEach (names : Symbol.Names) : List Value → List (Option String)
  | [] => []
  | v :: vs => v.render names :: renderEach names vs

end

/-- The texts of a list of values, as a map. -/
theorem renderEach_eq_map (names : Symbol.Names) (vs : List Value) :
    renderEach names vs = vs.map (render names) := by
  induction vs with
  | nil => rfl
  | cons v vs ih => rw [renderEach, ih, List.map_cons]

/-- A tuple value is printed as its tuple is. -/
theorem render_tuple (names : Symbol.Names) (t : Tuple Value) :
    render names (.tuple t) = (t.map (render names)).render names := by
  obtain ⟨shared, positional, values⟩ := t
  rw [render, renderMembers, renderEach_eq_map, renderEach_eq_map]
  rfl

/-! ### Arithmetic on members -/

/-- Why a number could not be added to a value. -/
inductive AddError where
  /-- The value is not a number. -/
  | notNumber
  /-- The sum does not fit into 64 bits. -/
  | overflow
  deriving DecidableEq, Repr

/-- The sum of a value and a number. -/
def add (n : Int64) : Value → Except AddError Value
  | .int m =>
    let sum := m.toInt + n.toInt
    if Int64.minValue.toInt ≤ sum ∧ sum ≤ Int64.maxValue.toInt then .ok (.int (Int64.ofInt sum))
    else .error .overflow
  | _ => .error .notNumber

end Value

/--
Adds a number to each member in slot order. The first failure ends it; the second component counts
the members that were visited, the failing one included.
-/
def Tuple.addToEach (n : Int64) (t : Tuple Value) : Except Value.AddError (Tuple Value) × Nat :=
  let step (v : Value) : ExceptT Value.AddError (StateM Nat) Value := do
    modify (· + 1)
    ExceptT.mk (pure (v.add n))
  (t.mapM step).run 0

end TaggedTuple
