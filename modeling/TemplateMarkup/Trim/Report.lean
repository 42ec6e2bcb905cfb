/-!
# Reports of a trimming run

A run that trims a tree tells whoever listens what it did: which elements it left as they
were, and at the end how many nodes there were before and after.
-/

namespace TemplateMarkup

namespace Trim

/-- The importance of a report. -/
inductive ReportLevel where
  /-- One step of a run. -/
  | trace
  /-- The outcome of a run. -/
  | debug
  deriving DecidableEq

namespace ReportLevel

/-- How a level is named in a log. -/
def name : ReportLevel → String
  | trace => "TRACE"
  | debug => "DEBUG"

end ReportLevel

/-- What is counted at the end of a run. -/
structure Counts where
  /-- The number of roots the tree had. -/
  rootsBefore : Nat
  /-- The number of roots it has now. -/
  rootsAfter : Nat
  /-- The number of problems that are known of it. -/
  errors : Nat
  deriving DecidableEq

/-- One thing that a run reports. -/
inductive Report where
  /-- The content of the element with this name is left as it is. -/
  | kept (element : String)
  /-- The options ask for layout to be kept, and nothing is done. -/
  | skipped
  /-- A tree has been trimmed. -/
  | trimmed (counts : Counts)
  /-- A tree has been trimmed, its roots side by side. -/
  | trimmedSideBySide (counts : Counts)
  deriving DecidableEq

namespace Report

/-- How important a report is. -/
def level : Report → ReportLevel
  | kept _ => .trace
  | skipped => .trace
  | trimmed _ => .debug
  | trimmedSideBySide _ => .debug

/-- What a report says. -/
def message : Report → String
  | kept _ => "preserving whitespace in element subtree"
  | skipped => "preserveWhitespaces is on, skipping whitespace removal"
  | trimmed _ => "removed template whitespace"
  | trimmedSideBySide _ => "removed template whitespace in parallel"

end Report

end Trim

end TemplateMarkup
