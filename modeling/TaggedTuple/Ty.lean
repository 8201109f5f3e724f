import TaggedTuple.Tuple.Equality

/-!
# Types

A type is a scalar, a tuple of types, a union, the type `Unknown` that stands in after an error, or
the type `Void` without values. As for values, functions go through the members of a tuple by
`Tuple.map`.
-/

namespace TaggedTuple

/-- The types whose values have no parts. -/
inductive Scalar where
  /-- The type of `nil` alone. -/
  | nil
  | bool
  | sym
  | str
  | int
  | float
  deriving DecidableEq, Repr

namespace Scalar

/-- The name of a scalar type. -/
def text : Scalar → String
  | .nil => "Nil"
  | .bool => "Bool"
  | .sym => "Sym"
  | .str => "Str"
  | .int => "Int"
  | .float => "Float"

/-- The word for a scalar type in a message. -/
def kindName : Scalar → String
  | .nil => "nil"
  | .bool => "bool"
  | .sym => "symbol"
  | .str => "string"
  | .int => "int"
  | .float => "float"

/-- The number of a scalar type among all kinds of types. -/
def kindNumber : Scalar → Nat
  | .nil => 2
  | .bool => 3
  | .sym => 4
  | .str => 5
  | .int => 6
  | .float => 7

end Scalar

/-- A type. -/
inductive Ty where
  /-- Not known yet. It is compatible with everything, so that checking can go on after an error. -/
  | unknown
  /-- The type without values. -/
  | void
  | scalar (s : Scalar)
  /-- The tuples with this layout and members of these types. -/
  | tuple (t : Tuple Ty)
  /-- The values of any of the member types. -/
  | union (members : List Ty)

namespace Ty

instance : Inhabited Ty := ⟨.unknown⟩

/-- Whether the type is `Unknown`. -/
def isUnknown : Ty → Bool
  | .unknown => true
  | _ => false

/-- Whether the type is `Void`. -/
def isVoid : Ty → Bool
  | .void => true
  | _ => false

/-- The scalar type inside, if the type is one. -/
def scalar? : Ty → Option Scalar
  | .scalar s => some s
  | _ => none

/-- The tuple type inside, if the type is one. -/
def tuple? : Ty → Option (Tuple Ty)
  | .tuple t => some t
  | _ => none

/-- The member types, if the type is a union. -/
def members? : Ty → Option (List Ty)
  | .union members => some members
  | _ => none

/-- The word for the kind of a type in a message. -/
def kindName : Ty → String
  | .unknown => "unknown"
  | .void => "void"
  | .scalar s => s.kindName
  | .tuple _ => "tuple"
  | .union _ => "union"

/-! ### Equality -/

mutual

/-- Equality of types: tuple types as tuples, unions member by member in order. -/
def equal : Ty → Ty → Bool
  | .unknown, b => b.isUnknown
  | .void, b => b.isVoid
  | .scalar s, b => b.scalar? == some s
  | .tuple t, b => b.tuple?.any (equalMembers t).accepts
  | .union members, b => b.members?.any (Tuple.agreeAll (equalEach members))

/-- The tests for equality with the members of a tuple type. -/
def equalMembers : Tuple Ty → Tuple (Ty → Bool)
  | ⟨shared, positional, values⟩ => ⟨shared, equalEach positional, equalEach values⟩

/-- The tests for equality with the types of a list. -/
def equalEach : List Ty → List (Ty → Bool)
  | [] => []
  | a :: as => a.equal :: equalEach as

end

instance : BEq Ty := ⟨equal⟩

/-- The comparisons of a list of types, as a map. -/
theorem equalEach_eq_map (as : List Ty) : equalEach as = as.map equal := by
  induction as with
  | nil => rfl
  | cons a as ih => rw [equalEach, ih, List.map_cons]

/-- Tuple types are equal as their tuples are. -/
theorem equal_tuple (t u : Tuple Ty) : equal (.tuple t) (.tuple u) = (t == u) := by
  obtain ⟨shared, positional, values⟩ := t
  rw [equal, equalMembers, equalEach_eq_map, equalEach_eq_map]
  rfl

/-! ### Hashing -/

mutual

/-- What a type feeds to a hash function: the number of its kind, then its parts. -/
def hashFeed : Ty → HashFeed
  | .unknown => .ofNat 0
  | .void => .ofNat 1
  | .scalar s => .ofNat s.kindNumber
  | .tuple t => .ofNat 8 ++ (hashFeedMembers t).hashFeed
  | .union members => .ofNat 9 ++ .ofList (hashFeedEach members)

/-- The feeds of the members of a tuple type. -/
def hashFeedMembers : Tuple Ty → Tuple HashFeed
  | ⟨shared, positional, values⟩ => ⟨shared, hashFeedEach positional, hashFeedEach values⟩

/-- The feeds of the types of a list. -/
def hashFeedEach : List Ty → List HashFeed
  | [] => []
  | a :: as => a.hashFeed :: hashFeedEach as

end

/-- The feeds of a list of types, as a map. -/
theorem hashFeedEach_eq_map (as : List Ty) : hashFeedEach as = as.map hashFeed := by
  induction as with
  | nil => rfl
  | cons a as ih => rw [hashFeedEach, ih, List.map_cons]

/-- A tuple type is fed as its tuple is, behind its number. -/
theorem hashFeed_tuple (t : Tuple Ty) :
    hashFeed (.tuple t) = .ofNat 8 ++ (t.map hashFeed).hashFeed := by
  obtain ⟨shared, positional, values⟩ := t
  rw [hashFeed, hashFeedMembers, hashFeedEach_eq_map, hashFeedEach_eq_map]
  rfl

/-! ### Text -/

/-- The text of a union of texts; a text that is unknown makes it unknown. -/
def renderUnion (members : List (Option String)) : Option String :=
  if members.isEmpty then some "Any()"
  else (members.mapM id).map (" | ".intercalate ·)

mutual

/-- The text of a type with the names of its tags and fields. -/
def render (names : Symbol.Names) : Ty → Option String
  | .unknown => some "?"
  | .void => some "Void"
  | .scalar s => some s.text
  | .tuple t => (renderMembers names t).render names
  | .union members => renderUnion (renderEach names members)

/-- The texts of the members of a tuple type. -/
def renderMembers (names : Symbol.Names) : Tuple Ty → Tuple (Option String)
  | ⟨shared, positional, values⟩ =>
    ⟨shared, renderEach names positional, renderEach names values⟩

/-- The texts of the types of a list. -/
def renderEach (names : Symbol.Names) : List Ty → List (Option String)
  | [] => []
  | a :: as => a.render names :: renderEach names as

end

/-- The texts of a list of types, as a map. -/
theorem renderEach_eq_map (names : Symbol.Names) (as : List Ty) :
    renderEach names as = as.map (render names) := by
  induction as with
  | nil => rfl
  | cons a as ih => rw [renderEach, ih, List.map_cons]

/-- A tuple type is printed as its tuple is. -/
theorem render_tuple (names : Symbol.Names) (t : Tuple Ty) :
    render names (.tuple t) = (t.map (render names)).render names := by
  obtain ⟨shared, positional, values⟩ := t
  rw [render, renderMembers, renderEach_eq_map, renderEach_eq_map]
  rfl

end Ty

end TaggedTuple
