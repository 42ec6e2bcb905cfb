import TemplateMarkup.CharClass

/-!
# Layout characters

Which characters of a text are mere layout, and what becomes of them when a template
is trimmed. Spaces, tabs, line ends and the wide and thin spaces of Unicode are
layout; a no-break space is content. An author who wants a space that is never
removed writes the entity `&ngsp;`, which stands in the tree as a placeholder
character and becomes a plain space.

## The model

Texts are lists of characters here; the functions on strings come last. `collapse`
runs over the text once and remembers of the layout characters just before only
whether there was none, one, or more: one is kept as it is, more become one space.
-/

namespace TemplateMarkup

namespace Layout

/-! ### Characters -/

/-- The horizontal tab, U+0009. -/
def tab : Char := '\t'

/-- The line feed, U+000A: the only character that ends a line. -/
def lineFeed : Char := '\n'

/-- The vertical tab, U+000B. -/
def verticalTab : Char := '\x0b'

/-- The form feed, U+000C. -/
def formFeed : Char := '\x0c'

/-- The carriage return, U+000D. -/
def carriageReturn : Char := '\r'

/-- The space, U+0020. -/
def space : Char := ' '

/-- The no-break space, U+00A0: content, never layout. -/
def noBreakSpace : Char := '\u00a0'

/-- What the entity `&ngsp;` stands for in a tree: U+E500, a private-use character. It
is content, and becomes a space when the text it stands in is trimmed. -/
def placeholder : Char := '\ue500'

/-- The layout characters: the white space of the script language of the web, less
the no-break space. -/
def layoutClass : CharClass where
  ranges :=
    [⟨tab, carriageReturn⟩, .one space, .one '\u1680', .one '\u180e', ⟨'\u2000', '\u200a'⟩,
     ⟨'\u2028', '\u2029'⟩, .one '\u202f', .one '\u205f', .one '\u3000', .one '\ufeff']

/-- Whether a character is layout. -/
def isLayout (c : Char) : Bool := layoutClass.contains c

theorem isLayout_space : isLayout space = true := by decide

theorem isLayout_noBreakSpace : isLayout noBreakSpace = false := by decide

theorem isLayout_placeholder : isLayout placeholder = false := by decide

/-! ### Collapsing -/

/-- The layout characters that stand just before a place in a text. -/
inductive Pending where
  /-- None: the text starts here, or content stands before. -/
  | none
  /-- One, which is this. -/
  | one (c : Char)
  /-- Two or more. -/
  | many
  deriving DecidableEq

namespace Pending

/-- What is pending after one more layout character. -/
def push : Pending → Char → Pending
  | none, c => one c
  | one _, _ => many
  | many, _ => many

/-- What is written for a finished run of layout characters: a single one as it is, and
one space for more. -/
def flush : Pending → List Char
  | none => []
  | one c => [c]
  | many => [space]

end Pending

/-- Collapses the rest of a text, behind a run of layout characters that may go on. -/
def collapseFrom : Pending → List Char → List Char
  | p, [] => p.flush
  | p, c :: rest =>
    if isLayout c then collapseFrom (p.push c) rest
    else p.flush ++ c :: collapseFrom .none rest

/-- Writes one space for every run of two or more layout characters. A layout character
between two that are content is kept as it is. -/
def collapseChars (cs : List Char) : List Char := collapseFrom .none cs

@[simp] theorem collapseFrom_nil (p : Pending) : collapseFrom p [] = p.flush := rfl

theorem collapseFrom_layout {p : Pending} {c : Char} {rest : List Char} (h : isLayout c = true) :
    collapseFrom p (c :: rest) = collapseFrom (p.push c) rest := by
  simp [collapseFrom, h]

theorem collapseFrom_content {p : Pending} {c : Char} {rest : List Char} (h : isLayout c = false) :
    collapseFrom p (c :: rest) = p.flush ++ c :: collapseFrom .none rest := by
  simp [collapseFrom, h]

/-- Writes a space for every placeholder. -/
def fillChars (cs : List Char) : List Char :=
  cs.map fun c => if c = placeholder then space else c

/-! ### Texts -/

/-- A blank text has no content: every character of it is layout. The empty text is
blank. -/
def isBlank (s : String) : Bool := s.toList.all isLayout

/-- The text with one space for every run of two or more layout characters. -/
def collapse (s : String) : String := String.ofList (collapseChars s.toList)

/-- The text with a space for every placeholder. -/
def fillPlaceholders (s : String) : String := String.ofList (fillChars s.toList)

/-- What a text becomes when it is trimmed: nothing if it is blank as it was written;
otherwise its placeholders are filled first, and its layout is collapsed after that. -/
def trim? (s : String) : Option String :=
  if isBlank s then none else some (collapse (fillPlaceholders s))

theorem isBlank_iff {s : String} : isBlank s = true ↔ ∀ c ∈ s.toList, isLayout c = true := by
  simp [isBlank]

@[simp] theorem toList_collapse (s : String) : (collapse s).toList = collapseChars s.toList := by
  simp [collapse]

@[simp] theorem toList_fillPlaceholders (s : String) :
    (fillPlaceholders s).toList = fillChars s.toList := by
  simp [fillPlaceholders]

theorem trim?_eq_none_iff {s : String} : trim? s = none ↔ isBlank s = true := by
  simp [trim?]

end Layout

end TemplateMarkup
