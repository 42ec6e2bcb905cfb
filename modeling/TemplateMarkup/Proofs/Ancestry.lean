import TemplateMarkup.Node

/-!
# Nodes and their ancestors

How nodes stand inside others. A node stands in an element as one of its children, and in
an expansion as one of the nodes of a case; the cases of an expansion are ancestors too.

The tree of elements has an induction of its own, `Node.inductionOn`, which takes the nodes
inside an expansion or a case for granted.
-/

namespace TemplateMarkup

namespace Node

/-- Induction over a tree of elements. The nodes inside an expansion or a case are not
gone into. -/
@[elab_as_elim]
theorem inductionOn {motive : Node → Prop} (text : ∀ t, motive (.text t))
    (comment : ∀ c, motive (.comment c)) (attr : ∀ a, motive (.attr a))
    (element : ∀ tag children, (∀ n ∈ children, motive n) → motive (.element tag children))
    (expansion : ∀ s cases, motive (.expansion s cases))
    (expansionCase : ∀ c, motive (.expansionCase c)) : ∀ n, motive n
  | .text t => text t
  | .comment c => comment c
  | .attr a => attr a
  | .element tag children => element tag children fun n _ =>
    inductionOn text comment attr element expansion expansionCase n
  | .expansion s cases => expansion s cases
  | .expansionCase c => expansionCase c

end Node

/-- `Stands roots above n`: among the nodes `roots` and all that is in them, the node `n`
stands inside the nodes `above`, the innermost first. -/
inductive Stands (roots : List Node) : List Node → Node → Prop where
  /-- A root stands inside nothing. -/
  | root {n : Node} : n ∈ roots → Stands roots [] n
  /-- A child stands inside its element. -/
  | child {above : List Node} {tag : Tag} {children : List Node} {n : Node} :
      Stands roots above (.element tag children) → n ∈ children →
      Stands roots (.element tag children :: above) n
  /-- A node of a case stands inside the case and inside the expansion. -/
  | inExpansion {above : List Node} {s : Switch} {cases : List ExpansionCase} {c : ExpansionCase}
      {n : Node} : Stands roots above (.expansion s cases) → c ∈ cases → n ∈ c.expression →
      Stands roots (.expansionCase c :: .expansion s cases :: above) n
  /-- A node of a case that stands on its own stands inside the case. -/
  | inCase {above : List Node} {c : ExpansionCase} {n : Node} :
      Stands roots above (.expansionCase c) → n ∈ c.expression →
      Stands roots (.expansionCase c :: above) n

end TemplateMarkup
