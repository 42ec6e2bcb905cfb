import TemplateMarkup.Proofs.Ancestry
import TemplateMarkup.Proofs.Trim.Walk
import Mathlib.Tactic.SplitIfs

/-!
# The rules of trimming, one by one

What becomes of each kind of node is laid down here rule by rule, as a relation between a
node and what is left of it, and without any of the functions that do the trimming but
the two that rewrite a text.

## What is proved

* `becomes_iff` and `becomeAll_iff` — the recursion over the tree follows the rules, and
  the rules leave it no choice.
* `walk_follows_rules` — so does the walk with an explicit stack, which ends after a
  number of steps that is known beforehand; a walk that keeps everything changes nothing.
-/

namespace TemplateMarkup

namespace Trim

open Layout (isBlank collapse fillPlaceholders)

/-! ### The rules -/

/-- **The content of an element is left as it is** if the element is one of the verbatim
ones, or if it carries the marker. -/
def KeepsContent (tag : Tag) : Prop :=
  tag.name ∈ verbatimTags ∨ ∃ a ∈ tag.attributes, a.name = marker

/-- The attributes of an element that are not the marker, in their order. -/
def unmarked (tag : Tag) : List Attribute := tag.attributes.filter fun a => a.name ≠ marker

mutual

/-- `Becomes n out`: the rules make `out` of the node `n`, or nothing at all of it. -/
inductive Becomes : Node → Option Node → Prop where
  /-- A blank text goes. -/
  | blank {t : Text} : isBlank t.value = true → Becomes (.text t) none
  /-- In any other text the placeholders are filled and the layout is collapsed. -/
  | text {t : Text} : isBlank t.value = false →
      Becomes (.text t) (some (.text ⟨collapse (fillPlaceholders t.value), t.span, t.i18n⟩))
  /-- The marker goes where it stands as a node of its own. -/
  | marker {a : Attribute} : a.name = marker → Becomes (.attr a) none
  /-- Any other attribute stays. -/
  | attr {a : Attribute} : a.name ≠ Trim.marker → Becomes (.attr a) (some (.attr a))
  /-- A comment stays. -/
  | comment (c : Comment) : Becomes (.comment c) (some (.comment c))
  /-- An expansion stays, with all that is in it. -/
  | expansion (s : Switch) (cases : List ExpansionCase) :
      Becomes (.expansion s cases) (some (.expansion s cases))
  /-- So does a case that stands on its own. -/
  | expansionCase (c : ExpansionCase) : Becomes (.expansionCase c) (some (.expansionCase c))
  /-- An element whose content is left as it is loses its marker only. -/
  | kept {tag : Tag} {children : List Node} : KeepsContent tag →
      Becomes (.element tag children) (some (.rebuild tag (unmarked tag) children))
  /-- Any other element gets the children that the rules make of its own. -/
  | element {tag : Tag} {children children' : List Node} : ¬ KeepsContent tag →
      BecomeAll children children' →
      Becomes (.element tag children) (some (.rebuild tag (unmarked tag) children'))

/-- `BecomeAll ns out`: the rules make `out` of the nodes `ns` of one level. -/
inductive BecomeAll : List Node → List Node → Prop where
  /-- Of no nodes they make none. -/
  | nil : BecomeAll [] []
  /-- Each node is replaced by what becomes of it. -/
  | cons {n : Node} {out : Option Node} {ns outs : List Node} : Becomes n out → BecomeAll ns outs →
      BecomeAll (n :: ns) (out.toList ++ outs)

end

/-! ### Tags without the marker -/

/-- A tag without the marker. -/
def strip (tag : Tag) : Tag := { tag with attributes := unmarked tag }

theorem hasMarker_iff {tag : Tag} :
    hasMarker tag = true ↔ ∃ a ∈ tag.attributes, a.name = marker := by
  simp [hasMarker]

@[simp] theorem unmarked_strip (tag : Tag) : unmarked (strip tag) = unmarked tag := by
  simp [unmarked, strip]

/-- Without the marker only the name of an element can keep its content as it is. -/
@[simp] theorem keepsContent_strip {tag : Tag} :
    KeepsContent (strip tag) ↔ tag.name ∈ verbatimTags := by
  constructor
  · rintro (h | ⟨a, ha, hm⟩)
    · exact h
    · exact absurd hm (by simpa using (List.mem_filter.1 ha).2)
  · exact .inl

@[simp] theorem strip_strip (tag : Tag) : strip (strip tag) = strip tag := by
  rw [strip, unmarked_strip]
  rfl

/-! ### What the recursion makes of each kind of node -/

theorem preserves_iff {tag : Tag} : preserves tag = true ↔ KeepsContent tag := by
  simp [preserves, hasMarker, KeepsContent]

theorem attributes_eq_unmarked (tag : Tag) : attributes tag.attributes = unmarked tag := by
  unfold attributes unmarked
  induction tag.attributes with
  | nil => rfl
  | cons a as ih => by_cases h : a.name = marker <;> simpa [attribute?, h] using ih

theorem trimmed?_text (t : Text) :
    trimmed? (.text t) =
      if isBlank t.value then none
      else some (.text ⟨collapse (fillPlaceholders t.value), t.span, t.i18n⟩) := by
  by_cases h : isBlank t.value <;> simp [trimmed?, leaf?, text?, Layout.trim?, h]

theorem trimmed?_text_eq_some_iff {t : Text} {n : Node} :
    trimmed? (.text t) = some n ↔
      ∃ v, Layout.trim? t.value = some v ∧ n = .text { t with value := v } := by
  simp only [trimmed?, leaf?, text?, Option.map_map, Option.map_eq_some_iff, Function.comp_apply]
  exact exists_congr fun v => and_congr_right fun _ => eq_comm

theorem trimmed?_attr (a : Attribute) :
    trimmed? (.attr a) = if a.name = marker then none else some (.attr a) := by
  by_cases h : a.name = marker <;> simp [trimmed?, leaf?, attribute?, h]

theorem trimmed?_attr_eq_some_iff {a : Attribute} {n : Node} :
    trimmed? (.attr a) = some n ↔ a.name ≠ marker ∧ n = .attr a := by
  rw [trimmed?_attr]
  by_cases h : a.name = marker
  · simp [h]
  · simp [h, eq_comm]

@[simp] theorem trimmed?_comment (c : Comment) : trimmed? (.comment c) = some (.comment c) := rfl

@[simp] theorem trimmed?_expansion (s : Switch) (cases : List ExpansionCase) :
    trimmed? (.expansion s cases) = some (.expansion s cases) := rfl

@[simp] theorem trimmed?_expansionCase (c : ExpansionCase) :
    trimmed? (.expansionCase c) = some (.expansionCase c) := rfl

theorem trimmed?_element (tag : Tag) (children : List Node) :
    trimmed? (.element tag children) =
      some (.element (strip tag) (if preserves tag then children else trimmedAll children)) := by
  rw [trimmed?, attributes_eq_unmarked]
  rfl

theorem trimmed?_element_of_kept {tag : Tag} (h : KeepsContent tag) (children : List Node) :
    trimmed? (.element tag children) = some (.element (strip tag) children) := by
  rw [trimmed?_element, if_pos (preserves_iff.2 h)]

theorem trimmed?_element_of_not_kept {tag : Tag} (h : ¬ KeepsContent tag) (children : List Node) :
    trimmed? (.element tag children) = some (.element (strip tag) (trimmedAll children)) := by
  rw [trimmed?_element, if_neg (mt preserves_iff.1 h)]

/-! ### The recursion follows the rules -/

/-- What becomes of the nodes of a level, if it is known of each of them. -/
theorem becomeAll_iff_of {ns : List Node}
    (h : ∀ n ∈ ns, ∀ out, Becomes n out ↔ trimmed? n = out) (out : List Node) :
    BecomeAll ns out ↔ trimmedAll ns = out := by
  induction ns generalizing out with
  | nil =>
    constructor
    · rintro ⟨⟩
      rfl
    · rintro rfl
      exact .nil
  | cons n ns ih =>
    have hn := h n (List.mem_cons_self ..)
    have hns := ih fun m hm => h m (List.mem_cons_of_mem _ hm)
    constructor
    · intro hb
      cases hb with
      | cons hn' hns' => rw [trimmedAll, (hn _).1 hn', (hns _).1 hns']
    · rintro rfl
      exact .cons ((hn _).2 rfl) ((hns _).2 rfl)

/-- The recursion makes of a node what the rules make of it, and the rules make nothing
else of it. -/
theorem becomes_iff (n : Node) (out : Option Node) : Becomes n out ↔ trimmed? n = out := by
  induction n using Node.inductionOn generalizing out with
  | text t =>
    rw [trimmed?_text]
    constructor
    · intro h
      cases h with
      | blank h => rw [if_pos h]
      | text h => rw [if_neg (by simp [h])]
    · rintro rfl
      split_ifs with h
      · exact .blank h
      · exact .text (by simpa using h)
  | attr a =>
    rw [trimmed?_attr]
    constructor
    · intro h
      cases h with
      | marker h => rw [if_pos h]
      | attr h => rw [if_neg h]
    · rintro rfl
      split_ifs with h
      · exact .marker h
      · exact .attr h
  | comment c => exact ⟨by rintro ⟨⟩; rfl, by rintro rfl; exact .comment c⟩
  | expansion s cases => exact ⟨by rintro ⟨⟩; rfl, by rintro rfl; exact .expansion s cases⟩
  | expansionCase c => exact ⟨by rintro ⟨⟩; rfl, by rintro rfl; exact .expansionCase c⟩
  | element tag children ih =>
    have hall := becomeAll_iff_of ih
    constructor
    · intro h
      cases h with
      | kept hk => exact trimmed?_element_of_kept hk children
      | element hk hc =>
        rw [trimmed?_element_of_not_kept hk, (hall _).1 hc]
        rfl
    · rintro rfl
      by_cases hk : KeepsContent tag
      · rw [trimmed?_element_of_kept hk]
        exact .kept hk
      · rw [trimmed?_element_of_not_kept hk]
        exact .element hk ((hall _).2 rfl)

theorem becomeAll_iff (ns out : List Node) : BecomeAll ns out ↔ trimmedAll ns = out :=
  becomeAll_iff_of (fun n _ => becomes_iff n) out

/-! ### The walk follows the rules -/

/-- **The walk follows the rules**: in either mode it stops, after as many steps as there
are nodes outside expansions, elements counted twice. A walk that trims has then made of
the nodes what the rules make of them, and a walk that keeps has left them as they are. -/
theorem walk_follows_rules (ns : List Node) :
    (∀ m, (Walk.start m ns).after? (Walk.stepsOfAll ns) = some (Walk.start m ns).run ∧
      (Walk.start m ns).run.step = none) ∧
    (∀ out, (nodes ns).result = out ↔ BecomeAll ns out) ∧
    (Mode.keep.walk ns).result = ns := by
  refine ⟨fun m => ⟨?_, Walk.step_run _⟩, fun out => ?_, Mode.result_walk .keep ns⟩
  · exact Walk.after?_size (Walk.start m ns)
  · rw [result_nodes, becomeAll_iff]

end Trim

end TemplateMarkup
