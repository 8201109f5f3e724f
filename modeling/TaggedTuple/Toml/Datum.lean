/-!
# The data of a document

What a document says once it is read: scalars, arrays and tables. Numbers with a fraction and points
in time keep the text they were written as, since nothing computes with them.
-/

namespace TaggedTuple.Toml

/-- A value of a document. -/
inductive Datum where
  | string (s : String)
  | integer (n : Int)
  | float (text : String)
  | boolean (b : Bool)
  /-- A date, a time of day or both. -/
  | moment (text : String)
  | array (elements : List Datum)
  | table (entries : List (String × Datum))

namespace Datum

instance : Inhabited Datum := ⟨.table []⟩

/-- The text, if the value is one. -/
def string? : Datum → Option String
  | .string s => some s
  | _ => none

/-- The truth value, if the value is one. -/
def boolean? : Datum → Option Bool
  | .boolean b => some b
  | _ => none

/-- The elements, if the value is an array. -/
def array? : Datum → Option (List Datum)
  | .array elements => some elements
  | _ => none

end Datum

end TaggedTuple.Toml
