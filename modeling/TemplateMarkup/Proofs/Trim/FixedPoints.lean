import TemplateMarkup.Proofs.Trim.Idempotence

/-!
# Trees that trimming leaves alone

The trees that trimming does not change are the normalised ones. A tree is normalised if, among
the nodes that trimming gets to, no marker is left to take away, and every text has some content,
its placeholders filled and its layout collapsed. One node that is not so, however deep it stands,
is enough for the tree to change: the element around it is rebuilt with another list of children,
and the element around that with another child.

## What is proved

* `strip_eq_self_iff` — a tag is left alone exactly if it does not carry the marker.
* `trimmed?_text_eq_self_iff`, `trimmed?_attr_eq_self_iff` and `trimmed?_element_eq_self_iff` —
  when trimming leaves a node alone, kind by kind.
* `trimmed?_eq_self_iff` — the same for a whole node, by the nodes that trimming gets to in it.
* `fixed_iff_normalised` — the same for a tree.
-/

namespace TemplateMarkup

namespace Trim

open Layout (isBlank IsNormal Apart placeholder)

/-! ### One node -/

/-- **Normalised**: there is nothing to trim at the node itself. -/
def Normalised : Node → Prop
  | .text x => isBlank x.value = false ∧ IsNormal x.value
  | .attr a => a.name ≠ marker
  | .element tag _ => ∀ a ∈ tag.attributes, a.name ≠ marker
  | .comment _ | .expansion _ _ | .expansionCase _ => True

theorem strip_eq_self_iff {tag : Tag} :
    strip tag = tag ↔ ∀ a ∈ tag.attributes, a.name ≠ marker := by
  constructor
  · intro h a ha
    rw [← h] at ha
    exact of_decide_eq_true (List.mem_filter.1 ha).2
  · intro h
    have hall : unmarked tag = tag.attributes :=
      List.filter_eq_self.2 fun a ha => decide_eq_true (h a ha)
    rw [strip, hall]

theorem hasMarker_eq_false_iff {tag : Tag} : hasMarker tag = false ↔ strip tag = tag := by
  rw [strip_eq_self_iff, ← Bool.not_eq_true, hasMarker_iff]
  simp

theorem hasMarker_strip (tag : Tag) : hasMarker (strip tag) = false :=
  hasMarker_eq_false_iff.2 (strip_strip tag)

theorem trimmed?_text_eq_self_iff {x : Text} :
    trimmed? (.text x) = some (.text x) ↔ isBlank x.value = false ∧ IsNormal x.value := by
  rw [← Layout.trim?_eq_self_iff, trimmed?_text_eq_some_iff]
  constructor
  · rintro ⟨v, hv, hx⟩
    have hxv : x.value = v := congrArg Text.value (Node.text.inj hx)
    rw [hv, hxv]
  · intro h
    exact ⟨x.value, h, rfl⟩

theorem trimmed?_attr_eq_self_iff {a : Attribute} :
    trimmed? (.attr a) = some (.attr a) ↔ a.name ≠ marker := by
  rw [trimmed?_attr_eq_some_iff]
  exact and_iff_left rfl

/-- An element is left alone if it does not carry the marker, and its children are not trimmed or
are left alone too. -/
theorem trimmed?_element_eq_self_iff {tag : Tag} {children : List Node} :
    trimmed? (.element tag children) = some (.element tag children) ↔
      strip tag = tag ∧ (KeepsContent tag ∨ trimmedAll children = children) := by
  by_cases hk : KeepsContent tag
  · rw [trimmed?_element_of_kept hk, Option.some.injEq, Node.element.injEq]
    simp [hk]
  · rw [trimmed?_element_of_not_kept hk, Option.some.injEq, Node.element.injEq]
    simp [hk]

/-! ### All that is in a node -/

/-- A node is left alone exactly if all nodes that trimming gets to in it are normalised. -/
theorem trimmed?_eq_self_iff (n : Node) :
    trimmed? n = some n ↔ ∀ m, Reached [n] m → Normalised m := by
  induction n using Node.inductionOn with
  | text x => simp [reached_leaf_iff, Normalised, trimmed?_text_eq_self_iff]
  | comment c => simp [reached_leaf_iff, Normalised]
  | attr a => simp [reached_leaf_iff, Normalised, trimmed?_attr_eq_self_iff]
  | expansion s cases => simp [reached_leaf_iff, Normalised]
  | expansionCase c => simp [reached_leaf_iff, Normalised]
  | element tag children ih =>
    have hchildren : trimmedAll children = children ↔ ∀ m, Reached children m → Normalised m := by
      rw [trimmedAll_eq_self_iff, forall_reached_iff]
      exact forall₂_congr ih
    rw [trimmed?_element_eq_self_iff, strip_eq_self_iff, hchildren]
    constructor
    · rintro ⟨htag, hbelow⟩ m hm
      obtain rfl | ⟨hk, hm⟩ := reached_element_iff.1 hm
      · exact htag
      · exact hbelow.resolve_left hk m hm
    · intro h
      refine ⟨h _ (reached_element_iff.2 (.inl rfl)), ?_⟩
      by_cases hk : KeepsContent tag
      · exact .inl hk
      · exact .inr fun m hm => h m (reached_element_iff.2 (.inr ⟨hk, hm⟩))

/-- A level is left alone exactly if all nodes that trimming gets to are normalised. -/
theorem trimmedAll_eq_self_iff_normalised {ns : List Node} :
    trimmedAll ns = ns ↔ ∀ m, Reached ns m → Normalised m := by
  rw [trimmedAll_eq_self_iff, forall_reached_iff]
  exact forall₂_congr fun n _ => trimmed?_eq_self_iff n

/-! ### Trees -/

/-- **The fixed points of trimming are the normalised trees**: a tree stays as it is exactly if,
of the nodes that trimming gets to, none is the marker, none carries it, and every text has
content, no placeholder, and no two layout characters next to each other. -/
theorem fixed_iff_normalised (t : Tree) :
    (tree t).result = t ↔
      (∀ a, Reached t.roots (.attr a) → a.name ≠ marker) ∧
      (∀ tag children, Reached t.roots (.element tag children) →
        ∀ a ∈ tag.attributes, a.name ≠ marker) ∧
      ∀ x, Reached t.roots (.text x) →
        isBlank x.value = false ∧ placeholder ∉ x.value.toList ∧ Apart x.value.toList := by
  have hroots : (tree t).result = t ↔ trimmedAll t.roots = t.roots := by
    rw [result_tree]
    exact ⟨congrArg Tree.roots, fun h => by rw [h]⟩
  rw [hroots, trimmedAll_eq_self_iff_normalised]
  constructor
  · intro h
    refine ⟨fun a ha => h _ ha, fun tag children hr => h _ hr, fun x hx => ?_⟩
    obtain ⟨hb, hfilled, hapart⟩ : isBlank x.value = false ∧ IsNormal x.value := h _ hx
    exact ⟨hb, hfilled, hapart⟩
  · rintro ⟨hattr, helement, htext⟩ m hm
    cases m with
    | text x =>
      obtain ⟨hb, hfilled, hapart⟩ := htext x hm
      exact ⟨hb, hfilled, hapart⟩
    | attr a => exact hattr a hm
    | element tag children => exact helement tag children hm
    | _ => trivial

end Trim

end TemplateMarkup
