import TaggedTuple.Canonical
import TaggedTuple.Canonical.Codec
import TaggedTuple.Config
import TaggedTuple.Config.Document
import TaggedTuple.Diagnostic
import TaggedTuple.Diagnostic.Code
import TaggedTuple.HashFeed
import TaggedTuple.Layout
import TaggedTuple.Layout.Cache
import TaggedTuple.Layout.FieldIndex
import TaggedTuple.Layout.Key
import TaggedTuple.Pattern
import TaggedTuple.Pattern.Alignment
import TaggedTuple.Pattern.Bindings
import TaggedTuple.Pattern.Error
import TaggedTuple.Pattern.LayoutMatching
import TaggedTuple.Pattern.Matching
import TaggedTuple.Proofs.Association
import TaggedTuple.Proofs.Canonical.Codec
import TaggedTuple.Proofs.Canonical.Consistency
import TaggedTuple.Proofs.Canonical.Form
import TaggedTuple.Proofs.Canonical.Format
import TaggedTuple.Proofs.Canonical.Loading
import TaggedTuple.Proofs.Config.Defaults
import TaggedTuple.Proofs.Config.RoundTrip
import TaggedTuple.Proofs.EqualityLaws
import TaggedTuple.Proofs.Layout.Attempts
import TaggedTuple.Proofs.Layout.Cache
import TaggedTuple.Proofs.Layout.FieldIndex
import TaggedTuple.Proofs.Layout.Identity
import TaggedTuple.Proofs.Layout.Requests
import TaggedTuple.Proofs.Layout.Shape
import TaggedTuple.Proofs.Layout.Slots
import TaggedTuple.Proofs.Layout.Uses
import TaggedTuple.Proofs.Lifting
import TaggedTuple.Proofs.Pattern.Arms
import TaggedTuple.Proofs.Pattern.Bindings
import TaggedTuple.Proofs.Pattern.Destructuring
import TaggedTuple.Proofs.Pattern.EqualTuples
import TaggedTuple.Proofs.Pattern.Erasure
import TaggedTuple.Proofs.Pattern.FieldOrder
import TaggedTuple.Proofs.Pattern.LayoutMatching
import TaggedTuple.Proofs.Pattern.Names
import TaggedTuple.Proofs.Pattern.Parts
import TaggedTuple.Proofs.Pattern.Places
import TaggedTuple.Proofs.Pattern.Rebinding
import TaggedTuple.Proofs.Pattern.RestMarkers
import TaggedTuple.Proofs.Pattern.Semantics
import TaggedTuple.Proofs.Pattern.Sequence
import TaggedTuple.Proofs.Pattern.SlotArithmetic
import TaggedTuple.Proofs.Pattern.Validity
import TaggedTuple.Proofs.Renaming.Cache
import TaggedTuple.Proofs.Renaming.Canonical
import TaggedTuple.Proofs.Renaming.Matching
import TaggedTuple.Proofs.Renaming.Pattern
import TaggedTuple.Proofs.Renaming.Results
import TaggedTuple.Proofs.Renaming.Tuple
import TaggedTuple.Proofs.Renaming.Ty
import TaggedTuple.Proofs.Renaming.Value
import TaggedTuple.Proofs.Sorting
import TaggedTuple.Proofs.SymbolTable
import TaggedTuple.Proofs.SymbolTable.Capacity
import TaggedTuple.Proofs.SymbolTable.Extension
import TaggedTuple.Proofs.SymbolTable.History
import TaggedTuple.Proofs.Symbols.Calls
import TaggedTuple.Proofs.Symbols.Comparison
import TaggedTuple.Proofs.Symbols.Matching
import TaggedTuple.Proofs.Symbols.Occurrences
import TaggedTuple.Proofs.Symbols.Texts
import TaggedTuple.Proofs.Symbols.Tuples
import TaggedTuple.Proofs.Text.Separated
import TaggedTuple.Proofs.Toml.DistinctKeys
import TaggedTuple.Proofs.Toml.Quoted
import TaggedTuple.Proofs.Toml.Reader
import TaggedTuple.Proofs.Toml.Sections
import TaggedTuple.Proofs.Transparency.Canonical
import TaggedTuple.Proofs.Transparency.Matching
import TaggedTuple.Proofs.Transparency.Operations
import TaggedTuple.Proofs.Transparency.Program
import TaggedTuple.Proofs.Tuple.Built
import TaggedTuple.Proofs.Tuple.Construction
import TaggedTuple.Proofs.Tuple.Equality
import TaggedTuple.Proofs.Tuple.Errors
import TaggedTuple.Proofs.Tuple.Extensionality
import TaggedTuple.Proofs.Tuple.FirstFault
import TaggedTuple.Proofs.Tuple.Lens
import TaggedTuple.Proofs.Tuple.Literals
import TaggedTuple.Proofs.Tuple.Members
import TaggedTuple.Proofs.Tuple.Parts
import TaggedTuple.Proofs.Tuple.Projection
import TaggedTuple.Proofs.Tuple.Representation
import TaggedTuple.Proofs.Tuple.Update
import TaggedTuple.Proofs.Ty.Congruence
import TaggedTuple.Proofs.Ty.FirstFault
import TaggedTuple.Proofs.Ty.Leaves
import TaggedTuple.Proofs.Ty.Locality
import TaggedTuple.Proofs.Ty.Order
import TaggedTuple.Proofs.Ty.Orientation
import TaggedTuple.Proofs.Ty.Policies
import TaggedTuple.Proofs.Ty.Printing
import TaggedTuple.Proofs.Ty.ReadBack
import TaggedTuple.Proofs.Ty.Rules
import TaggedTuple.Proofs.Ty.Spelling
import TaggedTuple.Proofs.Ty.Unknowns
import TaggedTuple.Proofs.Value.Equality
import TaggedTuple.Proofs.Workspace.Resolvable
import TaggedTuple.Proofs.Workspace.Session
import TaggedTuple.Sorting
import TaggedTuple.Span
import TaggedTuple.Symbol
import TaggedTuple.SymbolTable
import TaggedTuple.SymbolTable.Call
import TaggedTuple.Text.Utf8
import TaggedTuple.Toml.Datum
import TaggedTuple.Toml.Document
import TaggedTuple.Toml.Quoted
import TaggedTuple.Toml.Reader
import TaggedTuple.Toml.Scalar
import TaggedTuple.Toml.Table
import TaggedTuple.Toml.Text
import TaggedTuple.Tuple
import TaggedTuple.Tuple.Builder
import TaggedTuple.Tuple.Equality
import TaggedTuple.Tuple.Error
import TaggedTuple.Ty
import TaggedTuple.Ty.Mismatch
import TaggedTuple.Ty.Policy
import TaggedTuple.Ty.Relation
import TaggedTuple.Value
import TaggedTuple.Workspace
