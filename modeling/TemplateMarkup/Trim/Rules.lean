import TemplateMarkup.Layout
import TemplateMarkup.Node

/-!
# The rules of trimming

What trimming makes of each kind of node. Texts that are all layout go, and other texts
have their layout collapsed. The marker attribute, by which an author asks for an
element to be left alone, always goes. Comments, expansions and their cases stay as
they are.

## The model

The rules are given twice. Here they are a recursion over the tree, `Node.trimmed?` and
`trimmedAll`; `TemplateMarkup.Trim.Walk` follows them with an explicit stack.
-/

namespace TemplateMarkup

namespace Trim

/-- The attribute by which an author asks for the content of an element to be left as it
is, whatever the value. -/
def marker : String := "ngPreserveWhitespaces"

/-- The elements whose content is never laid out freely. -/
def verbatimTags : List String := ["pre", "template", "textarea", "script", "style"]

/-- Whether a tag carries the marker. -/
def hasMarker (tag : Tag) : Bool := tag.attributes.any fun a => a.name = marker

/-- Whether the content of an element is left as it is. -/
def preserves (tag : Tag) : Bool := verbatimTags.contains tag.name || hasMarker tag

/-- An attribute goes if it is the marker. -/
def attribute? (a : Attribute) : Option Attribute := if a.name = marker then none else some a

/-- The attributes of an element, without the marker. -/
def attributes (as : List Attribute) : List Attribute := as.filterMap attribute?

/-- A text goes if it is blank, and has its layout collapsed if not. -/
def text? (t : Text) : Option Text :=
  (Layout.trim? t.value).map fun value => { t with value := value }

/-- What becomes of a node that is not an element. Comments, expansions and cases stay. -/
def leaf? : Node → Option Node
  | .text t => (text? t).map .text
  | .attr a => (attribute? a).map .attr
  | n => some n

mutual

/-- What becomes of a node. An element stays and loses its marker; its children are
trimmed unless they are preserved. -/
def trimmed? : Node → Option Node
  | .element tag children =>
    some (.rebuild tag (attributes tag.attributes)
      (if preserves tag then children else trimmedAll children))
  | n => leaf? n

/-- What becomes of the nodes of one level. -/
def trimmedAll : List Node → List Node
  | [] => []
  | n :: ns => (trimmed? n).toList ++ trimmedAll ns

end

theorem trimmedAll_eq_filterMap (ns : List Node) : trimmedAll ns = ns.filterMap trimmed? := by
  induction ns with
  | nil => rfl
  | cons n ns ih => cases h : trimmed? n <;> simp [trimmedAll, h, ih]

/-! ### What is reported -/

mutual

/-- The elements under a node whose content is left as it is, the outermost of them
alone, in the order of the source. Expansions are not looked into. -/
def keptIn : Node → List String
  | .element tag children => if preserves tag then [tag.name] else keptInAll children
  | _ => []

/-- The same for the nodes of one level. -/
def keptInAll : List Node → List String
  | [] => []
  | n :: ns => keptIn n ++ keptInAll ns

end

theorem keptInAll_eq_flatMap (ns : List Node) : keptInAll ns = ns.flatMap keptIn := by
  induction ns with
  | nil => rfl
  | cons n ns ih => simp [keptInAll, ih]

end Trim

end TemplateMarkup
