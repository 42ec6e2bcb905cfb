import TemplateMarkup.Source.Location

/-!
# Spans

A span is the part of a file between two locations, perhaps with a note on it.
`Span.text` is the text that a span covers. It is never an error to ask for it: where
the two offsets do not mark off a part of the content, the text is empty.
-/

namespace TemplateMarkup

namespace Source

/-- A part of a file. -/
structure Span where
  /-- Where the part starts. -/
  start : Location
  /-- Where the part ends. -/
  stop : Location
  /-- A note that is shown with the span. -/
  details : Option String := none
  deriving DecidableEq

namespace Span

/-- The part of a text from byte `start` to byte `stop`, if both are boundaries and do
not come in the wrong order. -/
def slice? (content : List Char) (start stop : Nat) : Option (List Char) :=
  if stop < start then none
  else do
    let (_, rest) ← splitBytes? content start
    let (part, _) ← splitBytes? rest (stop - start)
    some part

/-- The text that a span covers, in the file in which it starts. -/
def text (s : Span) : String :=
  String.ofList ((slice? s.start.file.content.toList s.start.offset s.stop.offset).getD [])

/-- A part can be cut out at the byte counts of what stands before it and of itself. -/
theorem slice?_append (before part after : List Char) :
    slice? (before ++ part ++ after) (byteLength before) (byteLength (before ++ part)) =
      some part := by
  have h : ¬ byteLength (before ++ part) < byteLength before := by simp
  have hd : byteLength (before ++ part) - byteLength before = byteLength part := by simp
  simp only [slice?, h, if_false, hd, List.append_assoc, splitBytes?_append, bind, Option.bind]

end Span

end Source

end TemplateMarkup
