import TemplateMarkup.Proofs.Layout.Collapse
import TemplateMarkup.Proofs.Trim.Passes
import TemplateMarkup.Proofs.Trim.Places

/-!
# What trimming leaves behind

Wherever trimming has been, no marker is left, no placeholder, and no two layout characters
together; a blank text is left only where the author wrote a placeholder, and it is a single
space then. Where trimming has been is told by the tree as it was before: the markers that say
so are gone afterwards, and the places that trimming did not get to may hold markers and blank
texts of all kinds.

## What is proved

* `not_marked_of_trimmed?` — no marker is left on a node that has been trimmed, or in its place.
* `trimmed?_text_eq_space_iff` — which texts become a single space.
* `residue_is_clean` — what is left at the places that trimming gets to, and when nothing that
  carries the marker is left anywhere.
-/

namespace TemplateMarkup

namespace Trim

open Layout (isBlank IsNormal IsHeld placeholder)

/-! ### Markers -/

/-- **Marked**: the node is an element that carries the marker, or is the marker itself. -/
def Marked : Node → Prop
  | .element tag _ => ∃ a ∈ tag.attributes, a.name = marker
  | .attr a => a.name = marker
  | .text _ | .comment _ | .expansion _ _ | .expansionCase _ => False

/-- However often an element carries the marker, it loses it. -/
theorem not_marked_strip (tag : Tag) (children : List Node) :
    ¬ Marked (.element (strip tag) children) := by
  rintro ⟨a, ha, hm⟩
  have hne : decide (a.name ≠ marker) = true := (List.mem_filter.1 ha).2
  exact of_decide_eq_true hne hm

theorem not_marked_of_trimmed? {n m : Node} (h : trimmed? n = some m) : ¬ Marked m := by
  cases n with
  | text x =>
    obtain ⟨v, -, rfl⟩ := trimmed?_text_eq_some_iff.1 h
    exact id
  | attr a =>
    obtain ⟨ha, rfl⟩ := trimmed?_attr_eq_some_iff.1 h
    exact ha
  | element tag children =>
    rw [trimmed?_element] at h
    cases h
    exact not_marked_strip tag _
  | _ => cases h; exact id

/-! ### Texts -/

/-- A text that is left comes from a text. -/
theorem exists_text_of_trimmed? {n : Node} {y : Text} (h : trimmed? n = some (.text y)) :
    ∃ x, n = .text x ∧ Layout.trim? x.value = some y.value := by
  cases n with
  | text x =>
    obtain ⟨v, hv, hy⟩ := trimmed?_text_eq_some_iff.1 h
    cases hy
    exact ⟨x, rfl, hv⟩
  | attr a => cases (trimmed?_attr_eq_some_iff.1 h).2
  | _ => cases h

/-- A single space is left of the texts that only placeholders hold, and of no others. -/
theorem trimmed?_text_eq_space_iff {x : Text} :
    trimmed? (.text x) = some (.text { x with value := " " }) ↔ IsHeld x.value := by
  rw [← Layout.trim?_eq_space_iff, trimmed?_text_eq_some_iff]
  constructor
  · rintro ⟨v, hv, he⟩
    cases he
    exact hv
  · intro h
    exact ⟨" ", h, rfl⟩

/-- What is left of a text is in normal form, and blank only as a single space that stands for
placeholders. -/
theorem text_of_trimmed? {n : Node} {y : Text} (h : trimmed? n = some (.text y)) :
    IsNormal y.value ∧ (isBlank y.value = false ∨ y.value = " ") ∧
      (isBlank y.value = true → ∃ x, n = .text x ∧ placeholder ∈ x.value.toList) := by
  obtain ⟨x, rfl, hx⟩ := exists_text_of_trimmed? h
  refine ⟨Layout.isNormal_trim hx, ?_, fun hb => ⟨x, rfl, ((Layout.isBlank_trim_iff hx).1 hb).held⟩⟩
  cases hb : isBlank y.value with
  | false => exact .inl rfl
  | true => exact .inr (Layout.eq_space_of_isBlank_trim hx hb)

/-! ### Trees -/

theorem trimmed?_of_exposed {p : Place} (h : Exposed p.above) :
    p.trimmed? = (trimmed? p.node).map fun n => ⟨outcomes p.above, n⟩ := by
  rw [Place.trimmed?, outcome?_of_exposed h]

theorem node_of_exposed {p q : Place} (h : Exposed p.above) (hq : p.trimmed? = some q) :
    trimmed? p.node = some q.node := by
  rw [trimmed?_of_exposed h] at hq
  obtain ⟨n, hn, rfl⟩ := Option.map_eq_some_iff.1 hq
  exact hn

theorem node_of_not_exposed {p q : Place} (h : ¬ Exposed p.above) (hq : p.trimmed? = some q) :
    q.node = p.node := by
  rw [Place.trimmed?, outcome?_of_not_exposed h] at hq
  cases hq
  rfl

/-- If nothing that is sheltered is marked, nothing that is left is marked. -/
theorem not_marked_of_mem_trimmedAll {ns : List Node}
    (h : ∀ p ∈ Node.placesAll ns, ¬ Exposed p.above → ¬ Marked p.node) {q : Place}
    (hq : q ∈ Node.placesAll (trimmedAll ns)) : ¬ Marked q.node := by
  rw [placesAll_trimmedAll] at hq
  obtain ⟨p, hp, hpq⟩ := List.mem_filterMap.1 hq
  by_cases he : Exposed p.above
  · exact not_marked_of_trimmed? (node_of_exposed he hpq)
  · rw [node_of_not_exposed he hpq]
    exact h p hp he

/-- **What is left is clean**: of what is left at the places that trimming gets to, nothing is
marked; the texts are in normal form, they are not blank but for single spaces, and these are
what is left of the texts held by placeholders. If nothing is marked at the other places, no
mark is left in the tree. -/
theorem residue_is_clean (t : Tree) :
    Node.placesAll (tree t).result.roots = (Node.placesAll t.roots).filterMap Place.trimmed? ∧
    (∀ p ∈ Node.placesAll t.roots, Exposed p.above → ∀ q, p.trimmed? = some q →
      ¬ Marked q.node ∧
      ∀ y, q.node = .text y → IsNormal y.value ∧ (isBlank y.value = false ∨ y.value = " ") ∧
        (isBlank y.value = true → ∃ x, p.node = .text x ∧ placeholder ∈ x.value.toList)) ∧
    (∀ p ∈ Node.placesAll t.roots, Exposed p.above → ∀ x, p.node = .text x →
      (p.trimmed? = some ⟨outcomes p.above, .text { x with value := " " }⟩ ↔ IsHeld x.value)) ∧
    ((∀ above n, Stands t.roots above n → ¬ Exposed above → ¬ Marked n) →
      ∀ above n, Stands (tree t).result.roots above n → ¬ Marked n) := by
  rw [result_tree]
  refine ⟨placesAll_trimmedAll t.roots, fun p _ he q hq => ?_, ?_, fun h above n hn => ?_⟩
  · have hnode := node_of_exposed he hq
    exact ⟨not_marked_of_trimmed? hnode, fun y hy => text_of_trimmed? (hnode.trans (congrArg some hy))⟩
  · rintro ⟨above, n⟩ - he x rfl
    rw [trimmed?_of_exposed he, ← trimmed?_text_eq_space_iff]
    constructor
    · intro hx
      obtain ⟨n, hn, he⟩ := Option.map_eq_some_iff.1 hx
      cases he
      exact hn
    · intro hx
      rw [hx]
      rfl
  · have hsheltered (p : Place) (hp : p ∈ Node.placesAll t.roots) (he : ¬ Exposed p.above) :
        ¬ Marked p.node := h p.above p.node (mem_placesAll_iff.1 hp) he
    exact not_marked_of_mem_trimmedAll hsheltered (mem_placesAll_iff.2 hn)

end Trim

end TemplateMarkup
