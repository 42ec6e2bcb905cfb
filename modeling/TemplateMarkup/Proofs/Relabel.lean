import TemplateMarkup.Proofs.Places
import Mathlib.Data.List.Basic

/-!
# Relabelling

A relabelling changes what a tree carries besides its markup: the spans, the notes for
translators, the values of attributes and the comments. It changes all of them, at every depth and
in expansions too, and leaves alone what the tree says: names, texts, and which nodes there are.

## What is proved

* `Relabelling.nodes_eq_map` — the nodes of a level are relabelled one by one.
* `Relabelling.inner_node` and `Relabelling.placesAll_nodes` — the nodes inside a relabelled node,
  and the places of a relabelled level, are those there were, relabelled.
-/

namespace TemplateMarkup

/-- What becomes of everything that a tree carries besides its markup. -/
structure Relabelling where
  /-- What becomes of a span. -/
  span : Source.Span → Source.Span
  /-- What becomes of notes for translators, there or not. -/
  i18n : Option I18n → Option I18n
  /-- What becomes of the value of an attribute. -/
  value : String → String
  /-- What becomes of what a comment says, if it says anything. -/
  remark : Option String → Option String

namespace Relabelling

/-! ### Relabelling the parts of a node -/

/-- Relabels a text. -/
def text (r : Relabelling) (t : Text) : Text where
  value := t.value
  span := r.span t.span
  i18n := r.i18n t.i18n

/-- Relabels a comment. -/
def comment (r : Relabelling) (c : Comment) : Comment where
  value := r.remark c.value
  span := r.span c.span

/-- Relabels an attribute. -/
def attr (r : Relabelling) (a : Attribute) : Attribute where
  name := a.name
  value := r.value a.value
  span := r.span a.span
  valueSpan := a.valueSpan.map r.span
  i18n := r.i18n a.i18n

/-- Relabels a tag and its attributes. -/
def tag (r : Relabelling) (t : Tag) : Tag where
  name := t.name
  attributes := t.attributes.map r.attr
  span := r.span t.span
  startSpan := r.span t.startSpan
  endSpan := t.endSpan.map r.span
  i18n := r.i18n t.i18n

/-- Relabels what an expansion chooses by. -/
def switch (r : Relabelling) (s : Switch) : Switch where
  value := s.value
  type := s.type
  span := r.span s.span
  valueSpan := r.span s.valueSpan
  i18n := r.i18n s.i18n

/-- Relabels when a case is chosen. -/
def caseLabel (r : Relabelling) (l : CaseLabel) : CaseLabel where
  value := l.value
  span := r.span l.span
  valueSpan := r.span l.valueSpan
  expressionSpan := r.span l.expressionSpan

/-! ### Relabelling nodes -/

mutual

/-- Relabels a node and all that is in it. -/
def node (r : Relabelling) : Node → Node
  | .text t => .text (r.text t)
  | .comment c => .comment (r.comment c)
  | .attr a => .attr (r.attr a)
  | .element t children => .element (r.tag t) (r.nodes children)
  | .expansion s cases => .expansion (r.switch s) (r.cases cases)
  | .expansionCase c => .expansionCase (r.case c)

/-- Relabels the nodes of one level. -/
def nodes (r : Relabelling) : List Node → List Node
  | [] => []
  | n :: ns => r.node n :: r.nodes ns

/-- Relabels a case of an expansion. -/
def case (r : Relabelling) : ExpansionCase → ExpansionCase
  | .mk label expression => .mk (r.caseLabel label) (r.nodes expression)

/-- Relabels the cases of an expansion. -/
def cases (r : Relabelling) : List ExpansionCase → List ExpansionCase
  | [] => []
  | c :: cs => r.case c :: r.cases cs

end

variable (r : Relabelling)

/-- The nodes of a level are relabelled one by one. -/
theorem nodes_eq_map (ns : List Node) : r.nodes ns = ns.map r.node := by
  induction ns with
  | nil => rfl
  | cons n ns ih => rw [nodes, ih, List.map_cons]

theorem cases_eq_map (cs : List ExpansionCase) : r.cases cs = cs.map r.case := by
  induction cs with
  | nil => rfl
  | cons c cs ih => rw [cases, ih, List.map_cons]

@[simp] theorem length_nodes (ns : List Node) : (r.nodes ns).length = ns.length := by
  rw [nodes_eq_map, List.length_map]

@[simp] theorem expression_case (c : ExpansionCase) :
    (r.case c).expression = c.expression.map r.node := by
  cases c
  rw [case, ExpansionCase.expression, nodes_eq_map]
  rfl

/-- Relabels a tree. The problems that were found in it stay what they were. -/
def tree (t : Tree) : Tree := { t with roots := r.nodes t.roots }

/-! ### Relabelling places -/

/-- Relabels a node, and the nodes it stands inside. -/
def place (p : Place) : Place := ⟨p.above.map r.node, r.node p.node⟩

/-- The nodes right inside a relabelled node are those that were inside it, relabelled. -/
theorem inner_node (n : Node) : (r.node n).inner = n.inner.map r.place := by
  cases n with
  | element t children =>
    simp only [node, Node.inner, nodes_eq_map, List.map_map, Function.comp_def, place,
      List.map_singleton]
  | expansion s cs =>
    simp only [node, Node.inner, cases_eq_map, List.flatMap_map, List.map_flatMap, expression_case,
      List.map_map, Function.comp_def, place, List.map_cons, List.map_nil]
  | expansionCase c =>
    simp only [node, Node.inner, expression_case, List.map_map, Function.comp_def, place,
      List.map_singleton]
  | text t => rfl
  | comment c => rfl
  | attr a => rfl

/-- The places in a relabelled node are those in the node, relabelled. -/
theorem places_node (n : Node) : (r.node n).places = n.places.map r.place := by
  induction n using Node.inductionOnInner with
  | node n ih =>
    rw [Node.places_eq, inner_node, List.flatMap_map, Node.places_eq n, List.map_cons,
      List.map_flatMap]
    congr 1
    refine List.flatMap_congr fun q hq => ?_
    simp only [place, ih q hq, List.map_map, Function.comp_def, Place.under, List.map_append]

/-- The places of a relabelled level are those of the level, relabelled. -/
theorem placesAll_nodes (ns : List Node) :
    Node.placesAll (r.nodes ns) = (Node.placesAll ns).map r.place := by
  rw [nodes_eq_map, Node.placesAll_eq_flatMap, Node.placesAll_eq_flatMap, List.flatMap_map,
    List.map_flatMap]
  exact List.flatMap_congr fun n _ => r.places_node n

end Relabelling

end TemplateMarkup
