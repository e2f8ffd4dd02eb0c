import VariadicGenerics.Message
import VariadicGenerics.Span

/-!
# Diagnostics

A diagnostic is a problem at a place in a file, with its final text. It can carry related
entries, such as the reason why each signature of an overloaded function was rejected.

The text of a diagnostic is final. Types and variables have been put into words by the names that
were known then, so that a diagnostic may be kept, compared and sorted without anything to look up.
-/

namespace VariadicGenerics

/-- An entry that explains a diagnostic. -/
structure RelatedInformation where
  file : String
  start : Nat
  length : Nat
  text : String
  category : Category
  code : Nat
  deriving DecidableEq, Repr

/-- A reported problem. -/
structure Diagnostic where
  file : String
  start : Nat
  length : Nat
  text : String
  category : Category
  code : Nat
  related : List RelatedInformation
  deriving DecidableEq, Repr

namespace Diagnostic

/-- An error of `length` bytes from `start`. -/
def error (file : String) (start length : Nat) (text : String) (code : Nat) : Diagnostic :=
  { file, start, length, text, category := .error, code, related := [] }

/-- An error over a span. -/
def errorAt (file : String) (span : Span) (text : String) (code : Nat) : Diagnostic :=
  error file span.start span.length text code

/-- Append a plain explanation, which has no number of its own. -/
def withRelated (d : Diagnostic) (file : String) (start length : Nat) (text : String) :
    Diagnostic :=
  { d with
    related := d.related ++ [{ file, start, length, text, category := .message, code := 0 }] }

/-- The span that a diagnostic covers. -/
def span (d : Diagnostic) : Span := Span.ofLength d.start d.length

end Diagnostic

end VariadicGenerics
