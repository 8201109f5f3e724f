import TaggedTuple.Ty.Policy

/-!
# Configurations

What can be set for a compilation: the package, the policies for tuple types, and whether layouts
are shared. Everything has a default.
-/

namespace TaggedTuple

/-- The package that is compiled. -/
structure PackageConfig where
  name : Option String := none
  version : Option String := none
  dependencies : List String := []
  /-- The directory of the sources. -/
  root : String := "src"
  /-- The first module, relative to `root`. -/
  entry : String := "main.vamp"
  deriving DecidableEq, Repr

/-- A configuration. -/
structure Config where
  package : PackageConfig := {}
  types : TuplePolicy := {}
  /-- Whether each shape has one layout. -/
  canonicalizeLayouts : Bool := true
  deriving DecidableEq, Repr

instance : Inhabited Config := ⟨{}⟩

end TaggedTuple
