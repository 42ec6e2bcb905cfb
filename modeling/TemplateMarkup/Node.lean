import TemplateMarkup.Diagnostic

/-!
# The markup tree

The nodes of a parsed template. Every node knows the span of source it was read from,
and some carry notes for translators, which nothing in this library interprets.

## The model

A node is one of six kinds. All that an element has besides its children is its `Tag`,
so that a change of the children cannot touch the rest. Expansions, the blocks that
choose a message by a number or a word, hold cases, and a case holds nodes again: the
two types are defined together. A case and an attribute can also stand as nodes of
their own, outside an expansion or a tag.

## What is proved

* `Node.same_iff` — `Node.same`, which compares nodes by going through them, decides
  equality.
-/

namespace TemplateMarkup

/-- Notes for translators: what a message means, its description, and its own id. -/
structure I18n where
  /-- What the message means. -/
  meaning : String
  /-- A longer description. -/
  description : String
  /-- The id under which the message is translated. -/
  customId : String
  deriving DecidableEq

/-- A piece of text. -/
structure Text where
  /-- The text, entities decoded. -/
  value : String
  /-- Where it was read. -/
  span : Source.Span
  /-- Its notes for translators. -/
  i18n : Option I18n
  deriving DecidableEq

/-- A comment. -/
structure Comment where
  /-- What it says; an empty comment may have no text at all. -/
  value : Option String
  /-- Where it was read. -/
  span : Source.Span
  deriving DecidableEq

/-- An attribute of an element. -/
structure Attribute where
  /-- Its name, as it was written. -/
  name : String
  /-- Its value, empty if it has none. -/
  value : String
  /-- Where it was read. -/
  span : Source.Span
  /-- Where its value was read. -/
  valueSpan : Option Source.Span := none
  /-- Its notes for translators. -/
  i18n : Option I18n := none
  deriving DecidableEq

/-- An element without its children. -/
structure Tag where
  /-- The name of the element, perhaps with a namespace. -/
  name : String
  /-- The attributes, as they were written: a name may be repeated. -/
  attributes : List Attribute
  /-- Where the element was read. -/
  span : Source.Span
  /-- Where its opening tag was read. -/
  startSpan : Source.Span
  /-- Where its closing tag was read, if it has one. -/
  endSpan : Option Source.Span
  /-- Its notes for translators. -/
  i18n : Option I18n
  deriving DecidableEq

/-- An expansion without its cases: what the choice is made by. -/
structure Switch where
  /-- The expression that is looked at. -/
  value : String
  /-- The kind of choice, such as `plural` or `select`. -/
  type : String
  /-- Where the expansion was read. -/
  span : Source.Span
  /-- Where the expression was read. -/
  valueSpan : Source.Span
  /-- Its notes for translators. -/
  i18n : Option I18n
  deriving DecidableEq

/-- A case of an expansion without its nodes: when it is chosen. -/
structure CaseLabel where
  /-- The value that chooses the case. -/
  value : String
  /-- Where the case was read. -/
  span : Source.Span
  /-- Where its value was read. -/
  valueSpan : Source.Span
  /-- Where its nodes were read. -/
  expressionSpan : Source.Span
  deriving DecidableEq

mutual

/-- A node of a template. -/
inductive Node where
  /-- A piece of text. -/
  | text (text : Text)
  /-- A comment. -/
  | comment (comment : Comment)
  /-- An attribute that stands on its own. -/
  | attr (attr : Attribute)
  /-- An element. -/
  | element (tag : Tag) (children : List Node)
  /-- An expansion. -/
  | expansion (switch : Switch) (cases : List ExpansionCase)
  /-- A case that stands on its own. -/
  | expansionCase (case : ExpansionCase)

/-- A case of an expansion. -/
inductive ExpansionCase where
  /-- When the case is chosen, and what it shows then. -/
  | mk (label : CaseLabel) (expression : List Node)

end

instance : Inhabited Node := ⟨.text ⟨"", ⟨.start default, .start default, none⟩, none⟩⟩

/-! ### Equality -/

mutual

/-- Whether two nodes are equal in every field, at every depth. -/
def Node.same : Node → Node → Bool
  | .text a, .text b => a = b
  | .comment a, .comment b => a = b
  | .attr a, .attr b => a = b
  | .element s as, .element t bs => s = t && Node.sameAll as bs
  | .expansion s as, .expansion t bs => s = t && ExpansionCase.sameAll as bs
  | .expansionCase a, .expansionCase b => ExpansionCase.same a b
  | _, _ => false

/-- Whether two lists of nodes are equal. -/
def Node.sameAll : List Node → List Node → Bool
  | [], [] => true
  | a :: as, b :: bs => Node.same a b && Node.sameAll as bs
  | _, _ => false

/-- Whether two cases are equal. -/
def ExpansionCase.same : ExpansionCase → ExpansionCase → Bool
  | .mk s as, .mk t bs => s = t && Node.sameAll as bs

/-- Whether two lists of cases are equal. -/
def ExpansionCase.sameAll : List ExpansionCase → List ExpansionCase → Bool
  | [], [] => true
  | a :: as, b :: bs => ExpansionCase.same a b && ExpansionCase.sameAll as bs
  | _, _ => false

end

mutual

theorem Node.same_iff : ∀ {a b : Node}, Node.same a b = true ↔ a = b
  | .text _, b => by cases b <;> simp [Node.same]
  | .comment _, b => by cases b <;> simp [Node.same]
  | .attr _, b => by cases b <;> simp [Node.same]
  | .element _ as, b => by cases b <;> simp [Node.same, @Node.sameAll_iff as]
  | .expansion _ as, b => by cases b <;> simp [Node.same, @ExpansionCase.sameAll_iff as]
  | .expansionCase a, b => by cases b <;> simp [Node.same, @ExpansionCase.same_iff a]

theorem Node.sameAll_iff : ∀ {as bs : List Node}, Node.sameAll as bs = true ↔ as = bs
  | [], bs => by cases bs <;> simp [Node.sameAll]
  | a :: as, bs => by
    cases bs <;> simp [Node.sameAll, @Node.same_iff a, @Node.sameAll_iff as]

theorem ExpansionCase.same_iff : ∀ {a b : ExpansionCase}, ExpansionCase.same a b = true ↔ a = b
  | .mk _ as, b => by cases b; simp [ExpansionCase.same, @Node.sameAll_iff as]

theorem ExpansionCase.sameAll_iff :
    ∀ {as bs : List ExpansionCase}, ExpansionCase.sameAll as bs = true ↔ as = bs
  | [], bs => by cases bs <;> simp [ExpansionCase.sameAll]
  | a :: as, bs => by
    cases bs <;>
      simp [ExpansionCase.sameAll, @ExpansionCase.same_iff a,
        @ExpansionCase.sameAll_iff as]

end

instance : DecidableEq Node := fun _ _ => decidable_of_iff _ Node.same_iff

instance : DecidableEq ExpansionCase := fun _ _ => decidable_of_iff _ ExpansionCase.same_iff

/-! ### What every node has -/

/-- The six kinds of node. -/
inductive NodeKind where
  /-- An attribute. -/
  | attr
  /-- A comment. -/
  | comment
  /-- An element. -/
  | element
  /-- An expansion. -/
  | expansion
  /-- A case of an expansion. -/
  | expansionCase
  /-- A piece of text. -/
  | text
  deriving DecidableEq

namespace NodeKind

/-- How a kind is named in listings. -/
def name : NodeKind → String
  | attr => "Attribute"
  | comment => "Comment"
  | element => "Element"
  | expansion => "Expansion"
  | expansionCase => "ExpansionCase"
  | text => "Text"

end NodeKind

namespace ExpansionCase

/-- When the case is chosen. -/
def label : ExpansionCase → CaseLabel
  | mk label _ => label

/-- What the case shows. -/
def expression : ExpansionCase → List Node
  | mk _ expression => expression

end ExpansionCase

namespace Node

/-- The kind of a node. -/
def kind : Node → NodeKind
  | text _ => .text
  | comment _ => .comment
  | attr _ => .attr
  | element _ _ => .element
  | expansion _ _ => .expansion
  | expansionCase _ => .expansionCase

/-- Where a node was read. -/
def span : Node → Source.Span
  | text t => t.span
  | comment c => c.span
  | attr a => a.span
  | element tag _ => tag.span
  | expansion s _ => s.span
  | expansionCase c => c.label.span

/-- An element with the spans and the notes of `tag`, and with other attributes and
children. -/
def rebuild (tag : Tag) (attributes : List Attribute) (children : List Node) : Node :=
  .element { tag with attributes := attributes } children

end Node

/-! ### Trees -/

/-- A parsed template: its nodes, and what was found wrong with it. -/
structure Tree where
  /-- The nodes that are not inside others. -/
  roots : List Node
  /-- The problems that were found. -/
  errors : List Diagnostic
  deriving DecidableEq

end TemplateMarkup
