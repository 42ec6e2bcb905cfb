import TemplateMarkup.Source.Span

/-!
# Diagnostics

What is wrong with a template, where, and how it is put to the author: the message, the
source around the place with a mark in it, the place, and the details of its span.
-/

namespace TemplateMarkup

/-- How bad a problem is. -/
inductive Severity where
  /-- The template still compiles. -/
  | warning
  /-- The template does not compile. -/
  | error
  deriving DecidableEq

namespace Severity

/-- The word that marks the place in the source. -/
def label : Severity → String
  | warning => "WARNING"
  | error => "ERROR"

end Severity

/-- A problem in a template. -/
structure Diagnostic where
  /-- Where it is. -/
  span : Source.Span
  /-- What it is. -/
  message : String
  /-- How bad it is. -/
  severity : Severity
  deriving DecidableEq

namespace Diagnostic

/-- The most characters of source shown on each side of the place. -/
def contextChars : Nat := 100

/-- The most lines of source shown on each side of the place. -/
def contextLines : Nat := 3

/-- The message with the source around the start of the span, the place marked; the bare
message if the file is empty. -/
def contextualMessage (d : Diagnostic) : String :=
  match d.span.start.context? contextChars contextLines with
  | some (before, after) =>
    d.message ++ " (\"" ++ before ++ "[" ++ d.severity.label ++ " ->]" ++ after ++ "\")"
  | none => d.message

/-- The whole text of a diagnostic. Details are appended whenever the span has them, even
empty ones. -/
def display (d : Diagnostic) : String :=
  d.contextualMessage ++ ": " ++ d.span.start.display ++
    match d.span.details with
    | some details => ", " ++ details
    | none => ""

end Diagnostic

end TemplateMarkup
