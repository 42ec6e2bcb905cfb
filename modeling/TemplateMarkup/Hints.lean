import TemplateMarkup.Node
import TemplateMarkup.TagName

/-!
# Hints

What the later stages of the compiler want to know about an element before they look at
its content: whether it is a place for projected content, a style sheet or a script, what
it selects and links to, and whether its content is bound at all. All of it is read off
the tag.

## The model

The attributes are gone through once. For every kind of attribute the last one counts,
except that a projection alias is set only by one with a value. Names of attributes
that the page knows too are compared without regard to the case of ASCII letters; names
that only the compiler knows are compared exactly.
-/

namespace TemplateMarkup

/-- What the compiler does with an element before it looks at its content. -/
inductive Role where
  /-- A place for projected content. -/
  | content
  /-- A style sheet written into the template. -/
  | style
  /-- A link to a style sheet. -/
  | stylesheet
  /-- A script, which a template must not hold. -/
  | script
  /-- Any other element. -/
  | other
  deriving DecidableEq

/-- What is known about an element before its content is looked at. -/
structure Hints where
  /-- What is done with the element. -/
  role : Role
  /-- Which content the element is a place for: a selector, or `*` for all of it. -/
  select : String
  /-- What the element links to. -/
  href : Option String
  /-- Whether the content of the element is left unbound. -/
  nonBindable : Bool
  /-- The selector the element is projected as, empty if it has none. -/
  projectAs : String
  deriving DecidableEq

namespace Hints

/-- The text with its ASCII letters in lower case. -/
def foldCase (s : String) : String := String.ofList (s.toList.map Char.toLower)

/-- Whether two names differ at most in the case of ASCII letters. -/
def sameName (a b : String) : Bool := foldCase a = foldCase b

/-- What has been found among the attributes so far. -/
structure Found where
  /-- The value of the last `select`. -/
  select : Option String := none
  /-- The value of the last `href`. -/
  href : Option String := none
  /-- The value of the last `rel`. -/
  rel : Option String := none
  /-- Whether `ngNonBindable` was there. -/
  nonBindable : Bool := false
  /-- The value of the last `ngProjectAs` that has one. -/
  projectAs : Option String := none
  deriving DecidableEq

namespace Found

/-- What has been found after one more attribute. -/
def add (f : Found) (a : Attribute) : Found :=
  if a.name = "ngNonBindable" then { f with nonBindable := true }
  else if a.name = "ngProjectAs" ∧ a.value ≠ "" then { f with projectAs := some a.value }
  else if sameName a.name "select" then { f with select := some a.value }
  else if sameName a.name "href" then { f with href := some a.value }
  else if sameName a.name "rel" then { f with rel := some a.value }
  else f

/-- What is found among attributes. -/
def ofAttributes (attributes : List Attribute) : Found := attributes.foldl add {}

end Found

/-- The role of an element with the given tag name and the given last `rel`. -/
def roleOf (name : String) (rel : Option String) : Role :=
  if TagName.isContent (foldCase name) then .content
  else if foldCase name = "style" then .style
  else if foldCase name = "script" then .script
  else if foldCase name = "link" ∧ rel = some "stylesheet" then .stylesheet
  else .other

/-- A selector; without one, or with an empty one, all content is selected. -/
def selector : Option String → String
  | none => "*"
  | some s => if s = "" then "*" else s

/-- The hints of an element. -/
def ofTag (tag : Tag) : Hints :=
  let found := Found.ofAttributes tag.attributes
  { role := roleOf tag.name found.rel
    select := selector found.select
    href := found.href
    nonBindable := found.nonBindable
    projectAs := found.projectAs.getD "" }

end Hints

end TemplateMarkup
