import TemplateMarkup.Proofs.Ancestry

/-!
# Places in document order

The nodes of a tree one after the other, as their beginnings follow in the source, each with
the nodes it stands inside. The same node can stand at several places, and is listed at each
of them. What is inside an expansion or a case is listed too.

## What is proved

* `Node.places_eq` — the places in a node are its own and those in the nodes right inside it.
* `Node.inductionOnInner` — what holds of a node if it holds of the nodes right inside it
  holds of all nodes.
* `mem_placesAll_iff` — the places listed are the places at which nodes stand.
-/

namespace TemplateMarkup

/-- A node, and where it stands. -/
structure Place where
  /-- The nodes it stands inside, the innermost first. -/
  above : List Node
  /-- The node. -/
  node : Node

namespace Place

/-- The same place where all of it stands inside the nodes `around`. -/
def under (around : List Node) (p : Place) : Place := ⟨p.above ++ around, p.node⟩

@[simp] theorem above_under (around : List Node) (p : Place) :
    (p.under around).above = p.above ++ around := rfl

@[simp] theorem node_under (around : List Node) (p : Place) : (p.under around).node = p.node := rfl

theorem under_under (around outer : List Node) (p : Place) :
    (p.under around).under outer = p.under (around ++ outer) := by
  simp [under]

end Place

/-! ### Listing the places -/

mutual

/-- The places in a node, its own place first. -/
def Node.places : Node → List Place
  | .element tag children =>
    ⟨[], .element tag children⟩ ::
      (Node.placesAll children).map (Place.under [.element tag children])
  | .expansion s cases =>
    ⟨[], .expansion s cases⟩ ::
      (ExpansionCase.placesAll cases).map (Place.under [.expansion s cases])
  | .expansionCase c => ⟨[], .expansionCase c⟩ :: c.places
  | n => [⟨[], n⟩]

/-- The places in the nodes of one level. -/
def Node.placesAll : List Node → List Place
  | [] => []
  | n :: ns => n.places ++ Node.placesAll ns

/-- The places in a case. -/
def ExpansionCase.places : ExpansionCase → List Place
  | .mk label expression =>
    (Node.placesAll expression).map (Place.under [.expansionCase (.mk label expression)])

/-- The places in the cases of an expansion. -/
def ExpansionCase.placesAll : List ExpansionCase → List Place
  | [] => []
  | c :: cs => c.places ++ ExpansionCase.placesAll cs

end

theorem ExpansionCase.places_eq (c : ExpansionCase) :
    c.places = (Node.placesAll c.expression).map (Place.under [.expansionCase c]) := by
  cases c
  rw [places, expression]

theorem ExpansionCase.placesAll_eq_flatMap (cs : List ExpansionCase) :
    placesAll cs = cs.flatMap places := by
  induction cs with
  | nil => rfl
  | cons c cs ih => rw [placesAll, ih, List.flatMap_cons]

namespace Node

theorem placesAll_eq_flatMap (ns : List Node) : placesAll ns = ns.flatMap places := by
  induction ns with
  | nil => rfl
  | cons n ns ih => rw [placesAll, ih, List.flatMap_cons]

theorem placesAll_singleton (n : Node) : placesAll [n] = n.places := List.append_nil _

theorem mem_placesAll {ns : List Node} {p : Place} : p ∈ placesAll ns ↔ ∃ n ∈ ns, p ∈ n.places := by
  rw [placesAll_eq_flatMap, List.mem_flatMap]

/-! ### Right inside a node -/

/-- The nodes right inside a node, each with what of that node it stands inside. -/
def inner : Node → List Place
  | .element tag children => children.map fun n => ⟨[.element tag children], n⟩
  | .expansion s cases =>
    cases.flatMap fun c => c.expression.map fun n => ⟨[.expansionCase c, .expansion s cases], n⟩
  | .expansionCase c => c.expression.map fun n => ⟨[.expansionCase c], n⟩
  | _ => []

/-- The places in a node are its own and those in the nodes right inside it. -/
theorem places_eq (n : Node) :
    n.places = ⟨[], n⟩ :: n.inner.flatMap fun q => q.node.places.map (Place.under q.above) := by
  cases n with
  | element tag children =>
    rw [places, placesAll_eq_flatMap, List.map_flatMap, inner, List.flatMap_map]
  | expansion s cases =>
    simp only [places, inner, ExpansionCase.placesAll_eq_flatMap, ExpansionCase.places_eq,
      placesAll_eq_flatMap, List.map_flatMap, List.flatMap_assoc, List.flatMap_map, List.map_map,
      Function.comp_def, Place.under_under, List.singleton_append]
  | expansionCase c =>
    rw [places, ExpansionCase.places_eq, placesAll_eq_flatMap, List.map_flatMap, inner,
      List.flatMap_map]
  | _ => rfl

theorem self_mem_places (n : Node) : ⟨[], n⟩ ∈ n.places := by
  rw [places_eq]
  exact List.mem_cons_self ..

theorem mem_places_iff {n : Node} {p : Place} :
    p ∈ n.places ↔ p = ⟨[], n⟩ ∨ ∃ q ∈ n.inner, ∃ r ∈ q.node.places, p = r.under q.above := by
  rw [places_eq, List.mem_cons, List.mem_flatMap]
  simp only [List.mem_map, eq_comm (a := p)]

theorem sizeOf_expression_lt (c : ExpansionCase) : sizeOf c.expression < sizeOf c := by
  cases c
  simp only [ExpansionCase.expression, ExpansionCase.mk.sizeOf_spec]
  omega

theorem sizeOf_inner_lt {n : Node} {q : Place} (h : q ∈ n.inner) : sizeOf q.node < sizeOf n := by
  cases n with
  | element tag children =>
    obtain ⟨m, hm, rfl⟩ := List.mem_map.1 h
    have := List.sizeOf_lt_of_mem hm
    simp only [Node.element.sizeOf_spec]
    omega
  | expansion s cases =>
    obtain ⟨c, hc, h⟩ := List.mem_flatMap.1 h
    obtain ⟨m, hm, rfl⟩ := List.mem_map.1 h
    have h1 := List.sizeOf_lt_of_mem hc
    have h2 := sizeOf_expression_lt c
    have h3 := List.sizeOf_lt_of_mem hm
    simp only [Node.expansion.sizeOf_spec]
    omega
  | expansionCase c =>
    obtain ⟨m, hm, rfl⟩ := List.mem_map.1 h
    have h1 := sizeOf_expression_lt c
    have h2 := List.sizeOf_lt_of_mem hm
    simp only [Node.expansionCase.sizeOf_spec]
    omega
  | _ => cases h

/-- What holds of a node if it holds of the nodes right inside it holds of all nodes. -/
@[elab_as_elim]
theorem inductionOnInner {motive : Node → Prop}
    (node : ∀ n : Node, (∀ q ∈ n.inner, motive q.node) → motive n) (n : Node) : motive n :=
  node n fun q _ => inductionOnInner node q.node
termination_by sizeOf n
decreasing_by exact sizeOf_inner_lt ‹q ∈ n.inner›

end Node

/-! ### The places are where nodes stand -/

namespace Stands

variable {roots above : List Node} {n : Node}

/-- The nodes right inside a node stand in it and around that in what the node stands in. -/
theorem inner {q : Place} (h : Stands roots above n) (hq : q ∈ n.inner) :
    Stands roots (q.above ++ above) q.node := by
  cases n with
  | element tag children =>
    obtain ⟨m, hm, rfl⟩ := List.mem_map.1 hq
    exact h.child hm
  | expansion s cases =>
    obtain ⟨c, hc, hq⟩ := List.mem_flatMap.1 hq
    obtain ⟨m, hm, rfl⟩ := List.mem_map.1 hq
    exact h.inExpansion hc hm
  | expansionCase c =>
    obtain ⟨m, hm, rfl⟩ := List.mem_map.1 hq
    exact h.inCase hm
  | _ => cases hq

/-- A node at a place in a node that stands somewhere stands there too. -/
theorem of_mem_places {p : Place} (h : Stands roots above n) (hp : p ∈ n.places) :
    Stands roots (p.above ++ above) p.node := by
  induction n using Node.inductionOnInner generalizing above p with
  | node n ih =>
    rcases Node.mem_places_iff.1 hp with rfl | ⟨q, hq, r, hr, rfl⟩
    · exact h
    · have := ih q hq (h.inner hq) hr
      rwa [← List.append_assoc] at this

end Stands

/-- With a place the places of the nodes right inside are listed. -/
theorem Node.under_mem_places {n : Node} {p q : Place} (hp : p ∈ n.places) (hq : q ∈ p.node.inner) :
    q.under p.above ∈ n.places := by
  induction n using Node.inductionOnInner generalizing p with
  | node n ih =>
    rcases Node.mem_places_iff.1 hp with rfl | ⟨m, hm, r, hr, rfl⟩
    · refine Node.mem_places_iff.2 (.inr ⟨q, hq, ⟨[], q.node⟩, q.node.self_mem_places, ?_⟩)
      simp [Place.under]
    · refine Node.mem_places_iff.2 (.inr ⟨m, hm, q.under r.above, ih m hm hr hq, ?_⟩)
      rw [Place.under_under]
      rfl

theorem Node.under_mem_placesAll {ns : List Node} {p q : Place} (hp : p ∈ placesAll ns)
    (hq : q ∈ p.node.inner) : q.under p.above ∈ placesAll ns := by
  obtain ⟨n, hn, hp⟩ := mem_placesAll.1 hp
  exact mem_placesAll.2 ⟨n, hn, under_mem_places hp hq⟩

/-- **The places listed are the places at which nodes stand.** -/
theorem mem_placesAll_iff {roots above : List Node} {n : Node} :
    ⟨above, n⟩ ∈ Node.placesAll roots ↔ Stands roots above n := by
  constructor
  · intro h
    obtain ⟨m, hm, h⟩ := Node.mem_placesAll.1 h
    have := (Stands.root hm).of_mem_places h
    rwa [List.append_nil] at this
  · intro h
    induction h with
    | root hn => exact Node.mem_placesAll.2 ⟨_, hn, Node.self_mem_places _⟩
    | child _ hn ih => exact Node.under_mem_placesAll ih (List.mem_map.2 ⟨_, hn, rfl⟩)
    | inExpansion _ hc hn ih =>
      exact Node.under_mem_placesAll ih (List.mem_flatMap.2 ⟨_, hc, List.mem_map.2 ⟨_, hn, rfl⟩⟩)
    | inCase _ hn ih => exact Node.under_mem_placesAll ih (List.mem_map.2 ⟨_, hn, rfl⟩)

/-- The places in a node by itself. -/
theorem mem_places_iff_stands {above : List Node} {n m : Node} :
    ⟨above, m⟩ ∈ n.places ↔ Stands [n] above m := by
  rw [← mem_placesAll_iff, Node.placesAll_singleton]

/-- What stands in a child of an element stands in the element. -/
theorem Stands.of_child {tag : Tag} {children above : List Node} {c n : Node}
    (h : Stands [c] above n) (hc : c ∈ children) :
    Stands [.element tag children] (above ++ [.element tag children]) n :=
  ((Stands.root (List.mem_singleton_self _)).child hc).of_mem_places (mem_places_iff_stands.2 h)

end TemplateMarkup
