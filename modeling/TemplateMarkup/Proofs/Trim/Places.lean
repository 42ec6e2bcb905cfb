import TemplateMarkup.Proofs.Places
import TemplateMarkup.Proofs.Trim.Reach
import Mathlib.Data.List.Basic

/-!
# What becomes of each place

Trimming told place by place. What becomes of a node depends on nothing but the node and on
whether anything around it shelters it, and the places of a trimmed tree are the places of
the tree, less those whose node goes, in the same order.

## What is proved

* `not_exposed_of_mem_inner` — nothing in a node that shelters is exposed.
* `outcome?_append`, `outcomes_append_of_exposed` and `outcomes_append_of_not_exposed` — nodes
  around everything matter only by whether they shelter it.
* `placesAll_trimmedAll` — the places of a trimmed level are what becomes of its places.
-/

namespace TemplateMarkup

namespace Trim

/-! ### Exposed places -/

instance (tag : Tag) : Decidable (KeepsContent tag) := inferInstanceAs (Decidable (_ ∨ _))

instance : DecidablePred Shelters
  | .element tag _ => inferInstanceAs (Decidable (KeepsContent tag))
  | .expansion _ _ | .expansionCase _ => inferInstanceAs (Decidable True)
  | .text _ | .comment _ | .attr _ => inferInstanceAs (Decidable False)

/-- **Exposed**: none of the nodes around a place shelters it. -/
def Exposed (above : List Node) : Prop := ∀ a ∈ above, ¬ Shelters a

instance (above : List Node) : Decidable (Exposed above) :=
  inferInstanceAs (Decidable (∀ a ∈ above, ¬ Shelters a))

theorem exposed_nil : Exposed [] := fun _ ha => absurd ha List.not_mem_nil

@[simp] theorem exposed_cons {a : Node} {above : List Node} :
    Exposed (a :: above) ↔ ¬ Shelters a ∧ Exposed above :=
  List.forall_mem_cons

@[simp] theorem exposed_append {above around : List Node} :
    Exposed (above ++ around) ↔ Exposed above ∧ Exposed around :=
  List.forall_mem_append

/-- An element that does not keep its content as it is exposes its children. -/
theorem exposed_element {tag : Tag} (hk : ¬ KeepsContent tag) (children : List Node) :
    Exposed [.element tag children] :=
  exposed_cons.2 ⟨hk, exposed_nil⟩

/-- The nodes right inside a node that shelters them are not exposed. -/
theorem not_exposed_of_mem_inner {n : Node} {q : Place} (hn : Shelters n) (hq : q ∈ n.inner) :
    ¬ Exposed q.above := by
  intro h
  cases n with
  | element tag children =>
    obtain ⟨m, -, rfl⟩ := List.mem_map.1 hq
    exact (exposed_cons.1 h).1 hn
  | expansion s cases =>
    obtain ⟨c, -, hq⟩ := List.mem_flatMap.1 hq
    obtain ⟨m, -, rfl⟩ := List.mem_map.1 hq
    exact (exposed_cons.1 h).1 trivial
  | expansionCase c =>
    obtain ⟨m, -, rfl⟩ := List.mem_map.1 hq
    exact (exposed_cons.1 h).1 trivial
  | _ => cases hq

/-! ### What becomes of a node where it stands -/

/-- What becomes of a node that stands inside `above`: where something shelters it, it stays
as it is. -/
def outcome? (above : List Node) (n : Node) : Option Node :=
  if Exposed above then trimmed? n else some n

/-- What becomes of the nodes around a place, given from the innermost to the outermost. -/
def outcomes : List Node → List Node
  | [] => []
  | a :: above => (outcome? above a).toList ++ outcomes above

theorem outcome?_of_exposed {above : List Node} (h : Exposed above) (n : Node) :
    outcome? above n = trimmed? n :=
  if_pos h

theorem outcome?_of_not_exposed {above : List Node} (h : ¬ Exposed above) (n : Node) :
    outcome? above n = some n :=
  if_neg h

/-- Exposing nodes further outside do not matter to what becomes of a node. -/
theorem outcome?_append {around : List Node} (h : Exposed around) (above : List Node) (n : Node) :
    outcome? (above ++ around) n = outcome? above n := by
  simp [outcome?, h]

/-- What becomes of the nodes around a place is told apart for those further outside. -/
theorem outcomes_append_of_exposed {around : List Node} (h : Exposed around) (above : List Node) :
    outcomes (above ++ around) = outcomes above ++ outcomes around := by
  induction above with
  | nil => rfl
  | cons a above ih =>
    rw [List.cons_append, outcomes, outcomes, outcome?_append h, ih, List.append_assoc]

/-- Inside a node that shelters all of it everything stays as it is. -/
theorem outcomes_append_of_not_exposed {around : List Node} (h : ¬ Exposed around)
    (above : List Node) : outcomes (above ++ around) = above ++ outcomes around := by
  induction above with
  | nil => rfl
  | cons a above ih =>
    have h' : ¬ Exposed (above ++ around) := fun he => h (exposed_append.1 he).2
    rw [List.cons_append, outcomes, outcome?_of_not_exposed h', ih]
    rfl

end Trim

/-- What becomes of a place. -/
def Place.trimmed? (p : Place) : Option Place :=
  (Trim.outcome? p.above p.node).map fun n => ⟨Trim.outcomes p.above, n⟩

namespace Trim

theorem trimmed?_under_of_exposed {around : List Node} (h : Exposed around) (p : Place) :
    (p.under around).trimmed? = p.trimmed?.map (Place.under (outcomes around)) := by
  simp only [Place.trimmed?, Place.above_under, Place.node_under, outcome?_append h,
    outcomes_append_of_exposed h, Option.map_map]
  rfl

theorem trimmed?_under_of_not_exposed {around : List Node} (h : ¬ Exposed around) (p : Place) :
    (p.under around).trimmed? = some (p.under (outcomes around)) := by
  have h' : ¬ Exposed (p.above ++ around) := fun he => h (exposed_append.1 he).2
  simp only [Place.trimmed?, Place.above_under, Place.node_under, outcome?_of_not_exposed h',
    outcomes_append_of_not_exposed h, Option.map_some]
  rfl

/-! ### What becomes of a level -/

/-- Inside a node that shelters all of it every place stays. -/
theorem filterMap_trimmed?_of_not_exposed {around : List Node} (h : ¬ Exposed around)
    (ps : List Place) :
    (ps.map (Place.under around)).filterMap Place.trimmed? =
      ps.map (Place.under (outcomes around)) := by
  rw [List.filterMap_map]
  simp only [Function.comp_def, trimmed?_under_of_not_exposed h, List.filterMap_eq_map']

theorem filterMap_trimmed?_of_exposed {around : List Node} (h : Exposed around) (ps : List Place) :
    (ps.map (Place.under around)).filterMap Place.trimmed? =
      (ps.filterMap Place.trimmed?).map (Place.under (outcomes around)) := by
  rw [List.filterMap_map, List.map_filterMap]
  simp only [Function.comp_def, trimmed?_under_of_exposed h]

theorem trimmed?_root (n : Node) :
    Place.trimmed? ⟨[], n⟩ = (trimmed? n).map fun m => ⟨[], m⟩ := by
  rw [Place.trimmed?, outcome?_of_exposed exposed_nil]
  rfl

/-- The nodes around what is right inside an expansion or a case stay as they are. -/
theorem outcomes_of_mem_inner {n : Node} (hn : Shelters n) (hstay : trimmed? n = some n)
    {q : Place} (hq : q ∈ n.inner) : outcomes q.above = q.above := by
  have root (m : Node) (hm : trimmed? m = some m) : outcomes [m] = [m] := by
    rw [outcomes, outcome?_of_exposed exposed_nil, hm]
    rfl
  cases n with
  | element tag children =>
    obtain ⟨m, -, rfl⟩ := List.mem_map.1 hq
    exact root _ hstay
  | expansion s cases =>
    obtain ⟨c, -, hq⟩ := List.mem_flatMap.1 hq
    obtain ⟨m, -, rfl⟩ := List.mem_map.1 hq
    have h : ¬ Exposed [Node.expansion s cases] := fun h => (exposed_cons.1 h).1 hn
    rw [outcomes, outcome?_of_not_exposed h, root _ hstay]
    rfl
  | expansionCase c =>
    obtain ⟨m, -, rfl⟩ := List.mem_map.1 hq
    exact root _ hstay
  | _ => cases hq

/-- In a node that stays as it is and shelters what is in it, all places stay. -/
theorem filterMap_trimmed?_of_shelters {n : Node} (hn : Shelters n) (hstay : trimmed? n = some n) :
    n.places.filterMap Place.trimmed? = n.places := by
  have hroot : Place.trimmed? ⟨[], n⟩ = some ⟨[], n⟩ := by rw [trimmed?_root, hstay]; rfl
  rw [Node.places_eq, List.filterMap_cons_some hroot, List.filterMap_flatMap]
  congr 1
  refine List.flatMap_congr fun q hq => ?_
  rw [filterMap_trimmed?_of_not_exposed (not_exposed_of_mem_inner hn hq),
    outcomes_of_mem_inner hn hstay hq]

/-- A node that stays and has nothing in it is its only place, before and after. -/
theorem filterMap_trimmed?_of_leaf {n : Node} (hn : n.places = [⟨[], n⟩])
    (hout : ∀ m, trimmed? n = some m → m.places = [⟨[], m⟩]) :
    n.places.filterMap Place.trimmed? = (trimmed? n).toList.flatMap Node.places := by
  rw [hn]
  cases h : trimmed? n with
  | none => simp [trimmed?_root, h]
  | some m => simp [trimmed?_root, h, hout m h]

theorem outcomes_element (tag : Tag) (children : List Node) :
    outcomes [.element tag children] =
      [.element (strip tag) (if preserves tag then children else trimmedAll children)] := by
  rw [outcomes, outcome?_of_exposed exposed_nil, trimmed?_element]
  rfl

/-- The places of what becomes of a level, if it is known of each of its nodes. -/
theorem placesAll_trimmedAll_of {ns : List Node}
    (h : ∀ n ∈ ns, n.places.filterMap Place.trimmed? = (trimmed? n).toList.flatMap Node.places) :
    (Node.placesAll ns).filterMap Place.trimmed? = Node.placesAll (trimmedAll ns) := by
  induction ns with
  | nil => rfl
  | cons n ns ih =>
    rw [Node.placesAll, List.filterMap_append, h n (List.mem_cons_self ..),
      ih fun m hm => h m (List.mem_cons_of_mem _ hm), trimmedAll, Node.placesAll_eq_flatMap,
      Node.placesAll_eq_flatMap, List.flatMap_append]

/-- The places of what becomes of a node are what becomes of its places. -/
theorem places_trimmed? (n : Node) :
    n.places.filterMap Place.trimmed? = (trimmed? n).toList.flatMap Node.places := by
  induction n using Node.inductionOn with
  | text t =>
    refine filterMap_trimmed?_of_leaf rfl fun m hm => ?_
    obtain ⟨v, -, rfl⟩ := trimmed?_text_eq_some_iff.1 hm
    rfl
  | attr a =>
    refine filterMap_trimmed?_of_leaf rfl fun m hm => ?_
    obtain ⟨-, rfl⟩ := trimmed?_attr_eq_some_iff.1 hm
    rfl
  | comment c => exact filterMap_trimmed?_of_leaf rfl fun m hm => by cases hm; rfl
  | expansion s cases => simp [filterMap_trimmed?_of_shelters (n := .expansion s cases) trivial rfl]
  | expansionCase c => simp [filterMap_trimmed?_of_shelters (n := .expansionCase c) trivial rfl]
  | element tag children ih =>
    have hroot := trimmed?_root (.element tag children)
    rw [trimmed?_element] at hroot
    rw [Node.places, List.filterMap_cons_some hroot, trimmed?_element]
    by_cases hk : KeepsContent tag
    · have hs : ¬ Exposed [Node.element tag children] := fun h => (exposed_cons.1 h).1 hk
      rw [filterMap_trimmed?_of_not_exposed hs, outcomes_element]
      simp [preserves_iff.2 hk, Node.places]
    · rw [filterMap_trimmed?_of_exposed (exposed_element hk children), placesAll_trimmedAll_of ih,
        outcomes_element]
      simp [preserves_iff, hk, Node.places]

/-- **The places of a trimmed level** are what becomes of its places, in the same order. -/
theorem placesAll_trimmedAll (ns : List Node) :
    Node.placesAll (trimmedAll ns) = (Node.placesAll ns).filterMap Place.trimmed? :=
  (placesAll_trimmedAll_of fun n _ => places_trimmed? n).symm

end Trim

end TemplateMarkup
