import TemplateMarkup.Node

/-!
# Putting trees together

Operations that build a tree from others, between two runs of a pass: adding nodes and
problems, and putting nodes into an element or taking them out of it.
-/

namespace TemplateMarkup

namespace Node

/-- An element with the given nodes as its only children. -/
def enclose (tag : Tag) (ns : List Node) : Node := .rebuild tag tag.attributes ns

/-- The nodes in place of which an element stood; any other node stands for itself. -/
def disclose : Node → List Node
  | .element _ children => children
  | n => [n]

end Node

/-- An element that is put around nodes again and again, with the same siblings each
time. -/
structure Wrapping where
  /-- The element. -/
  tag : Tag
  /-- What stands before the nodes in it. -/
  before : List Node
  /-- What stands behind the nodes in it. -/
  after : List Node
  /-- How often the element is put around. -/
  times : Nat

namespace Wrapping

/-- Puts the element around nodes once. -/
def once (w : Wrapping) (ns : List Node) : List Node :=
  [.enclose w.tag (w.before ++ ns ++ w.after)]

/-- Puts the element around nodes as often as it says. -/
def apply (w : Wrapping) (ns : List Node) : List Node := w.times.repeat w.once ns

/-- Puts several elements around nodes, the last of them first. -/
def applyAll (ws : List Wrapping) (ns : List Node) : List Node := ws.foldr apply ns

end Wrapping

namespace Tree

/-- The tree with more roots behind those it has. -/
def push (t : Tree) (ns : List Node) : Tree := { t with roots := t.roots ++ ns }

/-- The tree with one more problem. -/
def pushError (t : Tree) (d : Diagnostic) : Tree := { t with errors := t.errors ++ [d] }

/-- The tree with an element around all of its roots. -/
def wrap (t : Tree) (tag : Tag) : Tree := { t with roots := [.enclose tag t.roots] }

/-- The tree with the children of every root that is an element in place of it. -/
def unwrap (t : Tree) : Tree := { t with roots := t.roots.flatMap Node.disclose }

end Tree

end TemplateMarkup
