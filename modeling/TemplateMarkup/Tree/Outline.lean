import TemplateMarkup.Node

/-!
# Outlines

An outline lists the nodes of a tree in the order of the source, a row for each start and
each end of an element and for each other node. Equal rows next to each other are counted
instead of repeated, which keeps the outline of a deep tree short.
-/

namespace TemplateMarkup

/-- One row of an outline. -/
inductive OutlineRow where
  /-- An element starts: its name and the names of its attributes. -/
  | opened (name : String) (attributes : List String)
  /-- An element ends. -/
  | closed
  /-- A piece of text. -/
  | text (value : String)
  /-- Any other node, which is not looked into. -/
  | leaf (kind : NodeKind)
  deriving DecidableEq

namespace Node

mutual

/-- The rows of a node, before the rows `rest`. -/
def rowsBefore (rest : List OutlineRow) : Node → List OutlineRow
  | .element tag children =>
    .opened tag.name (tag.attributes.map (·.name)) :: rowsBeforeAll (.closed :: rest) children
  | .text t => .text t.value :: rest
  | n => .leaf n.kind :: rest

/-- The rows of the nodes of one level, before the rows `rest`. -/
def rowsBeforeAll (rest : List OutlineRow) : List Node → List OutlineRow
  | [] => rest
  | n :: ns => rowsBefore (rowsBeforeAll rest ns) n

end

mutual

/-- The greatest number of elements around a place under a node, the node included. -/
def depth : Node → Nat
  | .element _ children => depthAll children + 1
  | _ => 0

/-- The same for the nodes of one level. -/
def depthAll : List Node → Nat
  | [] => 0
  | n :: ns => max (depth n) (depthAll ns)

end

end Node

namespace Outline

/-- Puts a row before counted rows. -/
def count (row : OutlineRow) : List (Nat × OutlineRow) → List (Nat × OutlineRow)
  | [] => [(1, row)]
  | (n, r) :: rest => if r = row then (n + 1, r) :: rest else (1, row) :: (n, r) :: rest

/-- The rows of nodes, equal neighbours counted. -/
def rows (ns : List Node) : List (Nat × OutlineRow) :=
  (Node.rowsBeforeAll [] ns).foldr count []

/-- The number of elements among nodes and under them. -/
def elements (ns : List Node) : Nat := (Node.rowsBeforeAll [] ns).count .closed

end Outline

end TemplateMarkup
