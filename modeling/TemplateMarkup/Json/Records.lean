import TemplateMarkup.Diagnostic
import TemplateMarkup.Json.Form
import TemplateMarkup.Node
import TemplateMarkup.Options

/-!
# The JSON forms of this library

Options, notes for translators, files, locations, spans and diagnostics as JSON. Each of
them is a record but for the severity, which is one of two names. A value is written as
an object with all its members in a fixed order; it is read from an object or an array.

## The model

The draft of a record has an option for every member. All members are needed, with two
exceptions: details that are missing from the object of a span are none, and options
that are missing from either form have their defaults.
-/

namespace TemplateMarkup

namespace Json

/-! ### Options -/

/-- Options that are being read. -/
structure OptionsDraft where
  /-- `preserveWhitespaces`, once it has been read. -/
  preserveWhitespaces : Option Bool := none

/-- Options have one member, which may be missing. -/
def optionsFormat : RecordFormat OptionsDraft Options where
  fields :=
    [.of "preserveWhitespaces" .bool (·.preserveWhitespaces)
      fun d b => { d with preserveWhitespaces := some b }]
  blank := {}
  finish d := some ⟨d.preserveWhitespaces.getD false⟩
  mayEndEarly := true

instance : Form Options where
  reader := optionsFormat.reader
  write o := writeObject [("preserveWhitespaces", writeBool o.preserveWhitespaces)]

/-! ### Notes for translators -/

/-- Notes for translators that are being read. -/
structure I18nDraft where
  /-- `meaning`, once it has been read. -/
  meaning : Option String := none
  /-- `description`, once it has been read. -/
  description : Option String := none
  /-- `customId`, once it has been read. -/
  customId : Option String := none

/-- Notes for translators have three members. -/
def i18nFormat : RecordFormat I18nDraft I18n where
  fields :=
    [.of "meaning" .string (·.meaning) fun d s => { d with meaning := some s },
     .of "description" .string (·.description) fun d s => { d with description := some s },
     .of "customId" .string (·.customId) fun d s => { d with customId := some s }]
  blank := {}
  finish d := do some ⟨← d.meaning, ← d.description, ← d.customId⟩
  mayEndEarly := false

instance : Form I18n where
  reader := i18nFormat.reader
  write i :=
    writeObject
      [("meaning", quote i.meaning), ("description", quote i.description),
       ("customId", quote i.customId)]

/-! ### Files -/

/-- A file that is being read. -/
structure FileDraft where
  /-- `content`, once it has been read. -/
  content : Option String := none
  /-- `url`, once it has been read. -/
  url : Option String := none

/-- A file has its content and its address. -/
def fileFormat : RecordFormat FileDraft Source.File where
  fields :=
    [.of "content" .string (·.content) fun d s => { d with content := some s },
     .of "url" .string (·.url) fun d s => { d with url := some s }]
  blank := {}
  finish d := do some ⟨← d.content, ← d.url⟩
  mayEndEarly := false

instance : Form Source.File where
  reader := fileFormat.reader
  write f := writeObject [("content", quote f.content), ("url", quote f.url)]

/-! ### Locations -/

/-- A location that is being read. -/
structure LocationDraft where
  /-- `file`, once it has been read. -/
  file : Option Source.File := none
  /-- `offset`, once it has been read. -/
  offset : Option UInt64 := none
  /-- `line`, once it has been read. -/
  line : Option UInt64 := none
  /-- `col`, once it has been read. -/
  column : Option UInt64 := none

/-- A location has its file and three counters. -/
def locationFormat : RecordFormat LocationDraft Source.Location where
  fields :=
    [.of "file" fileFormat.reader (·.file) fun d f => { d with file := some f },
     .of "offset" .counter (·.offset) fun d n => { d with offset := some n },
     .of "line" .counter (·.line) fun d n => { d with line := some n },
     .of "col" .counter (·.column) fun d n => { d with column := some n }]
  blank := {}
  finish d := do some ⟨← d.file, (← d.offset).toNat, ← d.line, ← d.column⟩
  mayEndEarly := false

instance : Form Source.Location where
  reader := locationFormat.reader
  write l :=
    writeObject
      [("file", Form.write l.file), ("offset", writeNat l.offset),
       ("line", writeNat l.line.toNat), ("col", writeNat l.column.toNat)]

/-! ### Spans -/

/-- A span that is being read. -/
structure SpanDraft where
  /-- `start`, once it has been read. -/
  start : Option Source.Location := none
  /-- `end`, once it has been read. -/
  stop : Option Source.Location := none
  /-- `details`, once it has been read: it may be `null`. -/
  details : Option (Option String) := none

/-- A span has two locations, and details that may be missing from an object. -/
def spanFormat : RecordFormat SpanDraft Source.Span where
  fields :=
    [.of "start" locationFormat.reader (·.start) fun d l => { d with start := some l },
     .of "end" locationFormat.reader (·.stop) fun d l => { d with stop := some l },
     .of "details" .optional (·.details) fun d o => { d with details := some o }]
  blank := {}
  finish d := do some ⟨← d.start, ← d.stop, d.details.getD none⟩
  mayEndEarly := false

instance : Form Source.Span where
  reader := spanFormat.reader
  write s :=
    writeObject
      [("start", Form.write s.start), ("end", Form.write s.stop),
       ("details", writeOptional s.details)]

/-! ### Diagnostics -/

/-- The names of the severities. -/
def severityNames : List (String × Severity) := [("Warning", .warning), ("Error", .error)]

/-- The name of a severity. -/
def severityName : Severity → String
  | .warning => "Warning"
  | .error => "Error"

instance : Form Severity where
  reader := .choice severityNames
  write s := quote (severityName s)

/-- A diagnostic that is being read. -/
structure DiagnosticDraft where
  /-- `span`, once it has been read. -/
  span : Option Source.Span := none
  /-- `msg`, once it has been read. -/
  message : Option String := none
  /-- `level`, once it has been read. -/
  severity : Option Severity := none

/-- A diagnostic has its span, its message and its severity. -/
def diagnosticFormat : RecordFormat DiagnosticDraft Diagnostic where
  fields :=
    [.of "span" spanFormat.reader (·.span) fun d s => { d with span := some s },
     .of "msg" .string (·.message) fun d m => { d with message := some m },
     .of "level" (.choice severityNames) (·.severity) fun d s => { d with severity := some s }]
  blank := {}
  finish d := do some ⟨← d.span, ← d.message, ← d.severity⟩
  mayEndEarly := false

instance : Form Diagnostic where
  reader := diagnosticFormat.reader
  write d :=
    writeObject
      [("span", Form.write d.span), ("msg", quote d.message), ("level", Form.write d.severity)]

end Json

end TemplateMarkup
