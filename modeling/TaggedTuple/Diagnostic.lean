import TaggedTuple.Diagnostic.Code
import TaggedTuple.Span

/-!
# Diagnostics

A diagnostic is what the user of the compiler reads: a code, a message, labelled spans, notes and
suggestions, each kept in the order in which it was added. `Diagnostic.render` writes it down; text
is written as it stands, line breaks included.
-/

namespace TaggedTuple

/-- A remark at a place of the source. -/
structure Label where
  span : Span
  message : String
  isPrimary : Bool
  deriving DecidableEq, Repr

namespace Label

/-- The line of a label: an arrow for a primary one, blanks for a secondary one. -/
def render (l : Label) : String :=
  "\n  " ++ (if l.isPrimary then "-->" else "   ") ++ " " ++ l.span.text ++ ": " ++ l.message

end Label

/-- An error report. -/
structure Diagnostic where
  code : ErrorCode
  message : String := ""
  labels : List Label := []
  notes : List String := []
  suggestions : List String := []
  deriving DecidableEq, Repr

namespace Diagnostic

/-- A report with nothing but a code. -/
def ofCode (code : ErrorCode) : Diagnostic := { code }

/-- Replaces the message. -/
def withMessage (d : Diagnostic) (message : String) : Diagnostic := { d with message }

/-- Adds the place of the fault. -/
def withLabel (d : Diagnostic) (span : Span) (message : String) : Diagnostic :=
  { d with labels := d.labels ++ [⟨span, message, true⟩] }

/-- Adds a place that helps to understand the fault. -/
def withSecondaryLabel (d : Diagnostic) (span : Span) (message : String) : Diagnostic :=
  { d with labels := d.labels ++ [⟨span, message, false⟩] }

/-- Adds a note. -/
def withNote (d : Diagnostic) (note : String) : Diagnostic := { d with notes := d.notes ++ [note] }

/-- Adds a way to mend the fault. -/
def withSuggestion (d : Diagnostic) (suggestion : String) : Diagnostic :=
  { d with suggestions := d.suggestions ++ [suggestion] }

/-- The place of the first primary label. -/
def primarySpan? (d : Diagnostic) : Option Span := (d.labels.find? (·.isPrimary)).map (·.span)

/-- The text of a report: the head line, then labels, notes and suggestions, one line each. -/
def render (d : Diagnostic) : String :=
  "error [" ++ d.code.text ++ "]: " ++ d.message
    ++ String.join (d.labels.map Label.render)
    ++ String.join (d.notes.map ("\n  = note: " ++ ·))
    ++ String.join (d.suggestions.map ("\n  = help: " ++ ·))

end Diagnostic

end TaggedTuple
