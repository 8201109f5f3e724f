import TaggedTuple.Symbol

/-!
# Policies for tuple types

Two questions are left to the configuration: whether an untagged tuple type accepts tagged ones, and
whether a subtype may have fields that its supertype lacks. The defaults are the strict answers.
-/

namespace TaggedTuple

/-- When a subtype's tag is acceptable. -/
inductive TagPolicy where
  /-- The tags are equal, or both absent. -/
  | exact
  /-- An untagged supertype accepts every tag. -/
  | untaggedAcceptsAny
  deriving DecidableEq, Repr

/-- When a subtype's fields are acceptable. -/
inductive WidthPolicy where
  /-- Both have the same fields. -/
  | exact
  /-- A subtype may have more fields. -/
  | extensible
  deriving DecidableEq, Repr

/-- Both policies. -/
structure TuplePolicy where
  tags : TagPolicy := .exact
  width : WidthPolicy := .exact
  deriving DecidableEq, Repr

instance : Inhabited TuplePolicy := ⟨{}⟩

namespace TagPolicy

/-- Whether a subtype with tag `sub` may stand for a supertype with tag `sup`. -/
def accepts (p : TagPolicy) (sub sup : Option Symbol) : Bool :=
  match p with
  | .exact => sub == sup
  | .untaggedAcceptsAny => sup.isNone || sub == sup

/-- The name of a policy in a configuration. -/
def text : TagPolicy → String
  | .exact => "exact"
  | .untaggedAcceptsAny => "untagged-accepts-any"

/-- The policy of a name. -/
def ofText? (s : String) : Option TagPolicy :=
  if s = "exact" then some .exact
  else if s = "untagged-accepts-any" then some .untaggedAcceptsAny
  else none

/-- A tag policy is read back from its name. -/
theorem ofText?_text (p : TagPolicy) : ofText? p.text = some p := by
  cases p <;> rfl

end TagPolicy

namespace WidthPolicy

/-- The name of a policy in a configuration. -/
def text : WidthPolicy → String
  | .exact => "exact"
  | .extensible => "extensible"

/-- The policy of a name. -/
def ofText? (s : String) : Option WidthPolicy :=
  if s = "exact" then some .exact
  else if s = "extensible" then some .extensible
  else none

/-- A width policy is read back from its name. -/
theorem ofText?_text (p : WidthPolicy) : ofText? p.text = some p := by
  cases p <;> rfl

end WidthPolicy

end TaggedTuple
