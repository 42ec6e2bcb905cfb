import TemplateMarkup.Json.Records
import TemplateMarkup.TagName

/-!
# Errors

What a caller of this library can be told instead of an answer, and the operations that
can fail. Nothing else fails: trimming, moving about in a file and reading off hints have
an answer for every input.
-/

namespace TemplateMarkup

/-- Why an operation failed. -/
inductive Error where
  /-- A tag name starts with the only colon it has. -/
  | unsupportedNamespace (name : String)
  /-- The text of the options cannot be read. -/
  | invalidOptions (fault : Json.Fault)
  deriving DecidableEq

namespace Error

/-- What is said of an error. Of options that cannot be read it is only the beginning, behind
which the details of the fault belong. -/
def message : Error → String
  | unsupportedNamespace name =>
    "Unsupported format \"" ++ name ++ "\" expecting \":namespace:name\""
  | invalidOptions _ => "invalid compiler configuration: "

end Error

namespace TagName

/-- Takes a written tag name apart. -/
def parse (name : String) : Except Error TagName :=
  match parse? name with
  | some n => .ok n
  | none => .error (.unsupportedNamespace name)

/-- The namespace that a written tag name carries, if there is a name and it has one. -/
def namespaceOf : Option String → Except Error (Option String)
  | none => .ok none
  | some name => (parse name).map (·.ns)

end TagName

namespace Options

/-- Reads options from the text of a JSON object such as `{"preserveWhitespaces": true}`.
Members that are no options are ignored. -/
def ofJson (text : String) : Except Error Options :=
  (Json.read text).mapError .invalidOptions

end Options

end TemplateMarkup
