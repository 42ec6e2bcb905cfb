import TemplateMarkup.Proofs.Layout.Collapse
import TemplateMarkup.Proofs.Trim.Passes
import TemplateMarkup.Proofs.Trim.Reach

/-!
# Trimming twice

A second run does not see the tree that the first one saw. It no longer finds the markers,
and goes into elements that the first run left as they were; and a text that was held by
placeholders is blank by now. These are the only things that it can still change.

## What is proved

* `trimmedAll_eq_self_iff` — trimming changes nothing exactly if it changes no node of the
  level. A node that goes cannot be made up for by its neighbours.
* `settled_iff` — when the outcome of a node is left alone by a second run, in terms of the
  nodes that trimming gets to from it.
* `idempotent_iff` — when a second run leaves a tree alone.
-/

namespace TemplateMarkup

namespace Trim

/-! ### Fixed lists -/

/-- A list from which something goes never equals itself, since what is left is shorter. -/
theorem filterMap_eq_self_iff {α : Type} {f : α → Option α} {l : List α} :
    l.filterMap f = l ↔ ∀ x ∈ l, f x = some x := by
  induction l with
  | nil => simp
  | cons x l ih =>
    rw [List.forall_mem_cons, ← ih]
    cases hx : f x with
    | none =>
      rw [List.filterMap_cons_none hx]
      refine ⟨fun h => ?_, fun h => absurd h.1 (by simp)⟩
      have hle := List.length_filterMap_le f l
      rw [h, List.length_cons] at hle
      omega
    | some y => rw [List.filterMap_cons_some hx, List.cons.injEq, Option.some.injEq]

theorem trimmedAll_eq_self_iff {ns : List Node} :
    trimmedAll ns = ns ↔ ∀ n ∈ ns, trimmed? n = some n := by
  rw [trimmedAll_eq_filterMap, filterMap_eq_self_iff]

/-! ### Settled nodes -/

/-- **Settled**: what becomes of the node, if anything does, is left alone by a second run. -/
def Settled (n : Node) : Prop := ∀ m, trimmed? n = some m → trimmed? m = some m

theorem settled_iff_of_eq_some {n m : Node} (h : trimmed? n = some m) :
    Settled n ↔ trimmed? m = some m := by
  simp [Settled, h]

theorem trimmedAll_trimmedAll_iff {ns : List Node} :
    trimmedAll (trimmedAll ns) = trimmedAll ns ↔ ∀ n ∈ ns, Settled n := by
  rw [trimmedAll_eq_self_iff, trimmedAll_eq_filterMap]
  constructor
  · intro h n hn m hm
    exact h m (List.mem_filterMap.2 ⟨n, hn, hm⟩)
  · intro h m hm
    obtain ⟨n, hn, hnm⟩ := List.mem_filterMap.1 hm
    exact h n hn m hnm

theorem settled_text_iff {t : Text} : Settled (.text t) ↔ ¬ Layout.IsHeld t.value := by
  constructor
  · intro h hheld
    obtain ⟨v, hv⟩ : ∃ v, Layout.trim? t.value = some v := by
      rw [← Option.ne_none_iff_exists', ne_eq, Layout.trim?_eq_none_iff, hheld.isBlank_eq_false]
      simp
    have htwice := h _ (trimmed?_text_eq_some_iff.2 ⟨v, hv, rfl⟩)
    obtain ⟨v', hv', he⟩ := trimmed?_text_eq_some_iff.1 htwice
    have hvv : v' = v := (congrArg Text.value (Node.text.inj he)).symm
    exact (Layout.trim?_trim_iff hv).1 (hvv ▸ hv') hheld
  · intro hheld n hn
    obtain ⟨v, hv, rfl⟩ := trimmed?_text_eq_some_iff.1 hn
    exact trimmed?_text_eq_some_iff.2 ⟨v, (Layout.trim?_trim_iff hv).2 hheld, rfl⟩

theorem settled_attr (a : Attribute) : Settled (.attr a) := by
  intro n hn
  obtain ⟨ha, rfl⟩ := trimmed?_attr_eq_some_iff.1 hn
  exact trimmed?_attr_eq_some_iff.2 ⟨ha, rfl⟩

/-- An element whose content the first run left as it was is settled if its name alone says
so, or if there is nothing to trim in it. -/
theorem settled_kept_iff {tag : Tag} {children : List Node} (hk : KeepsContent tag) :
    Settled (.element tag children) ↔
      (tag.name ∉ verbatimTags → trimmedAll children = children) := by
  rw [settled_iff_of_eq_some (trimmed?_element_of_kept hk children)]
  by_cases hv : tag.name ∈ verbatimTags
  · rw [trimmed?_element_of_kept (keepsContent_strip.2 hv)]
    simp [hv]
  · rw [trimmed?_element_of_not_kept (mt keepsContent_strip.1 hv)]
    simp [hv]

/-- Any other element is settled if its children are. -/
theorem settled_element_iff {tag : Tag} {children : List Node} (hk : ¬ KeepsContent tag) :
    Settled (.element tag children) ↔ ∀ n ∈ children, Settled n := by
  have hv : ¬ KeepsContent (strip tag) := mt keepsContent_strip.1 fun h => hk (.inl h)
  rw [settled_iff_of_eq_some (trimmed?_element_of_not_kept hk children),
    trimmed?_element_of_not_kept hv, ← trimmedAll_trimmedAll_iff]
  simp

/-! ### What keeps a second run busy -/

/-- **Nothing is left for a second run** at a node itself: it is not a text held by
placeholders, nor an element that only its marker has kept from being trimmed. -/
def NothingLeft : Node → Prop
  | .text t => ¬ Layout.IsHeld t.value
  | .element tag children =>
    hasMarker tag = true → tag.name ∉ verbatimTags → trimmedAll children = children
  | _ => True

theorem nothingLeft_kept_iff {tag : Tag} {children : List Node} (hk : KeepsContent tag) :
    NothingLeft (.element tag children) ↔
      (tag.name ∉ verbatimTags → trimmedAll children = children) := by
  constructor
  · intro h hv
    exact h (hasMarker_iff.2 (hk.resolve_left hv)) hv
  · intro h _ hv
    exact h hv

theorem nothingLeft_of_not_kept {tag : Tag} {children : List Node} (hk : ¬ KeepsContent tag) :
    NothingLeft (.element tag children) :=
  fun hm _ => absurd (.inr (hasMarker_iff.1 hm)) hk

/-- A node is settled exactly if nothing is left for a second run at any node that trimming
gets to from it. -/
theorem settled_iff (n : Node) : Settled n ↔ ∀ m, Reached [n] m → NothingLeft m := by
  induction n using Node.inductionOn with
  | text t => simp [reached_leaf_iff, settled_text_iff, NothingLeft]
  | comment c => simp [reached_leaf_iff, Settled, NothingLeft]
  | attr a => simp [reached_leaf_iff, settled_attr, NothingLeft]
  | expansion s cases => simp [reached_leaf_iff, Settled, NothingLeft]
  | expansionCase c => simp [reached_leaf_iff, Settled, NothingLeft]
  | element tag children ih =>
    simp only [reached_element_iff]
    by_cases hk : KeepsContent tag
    · simp [hk, settled_kept_iff hk, nothingLeft_kept_iff hk]
    · have hchildren : (∀ n ∈ children, Settled n) ↔ ∀ m, Reached children m → NothingLeft m :=
        (forall₂_congr ih).trans forall_reached_iff.symm
      simp [hk, settled_element_iff hk, nothingLeft_of_not_kept hk, hchildren]

/-- A second run leaves a level alone exactly if nothing is left for it at any node that
trimming gets to. -/
theorem trimmedAll_idempotent_iff {ns : List Node} :
    trimmedAll (trimmedAll ns) = trimmedAll ns ↔ ∀ m, Reached ns m → NothingLeft m := by
  rw [trimmedAll_trimmedAll_iff, forall_reached_iff]
  exact forall₂_congr fun n _ => settled_iff n

theorem nothingLeft_of_unmarked_of_filled {n : Node}
    (hm : ∀ tag children, n = .element tag children → hasMarker tag = false)
    (hp : ∀ t, n = .text t → Layout.placeholder ∉ t.value.toList) : NothingLeft n := by
  cases n with
  | text t => exact fun h => hp t rfl h.held
  | element tag children =>
    intro h
    rw [hm tag children rfl] at h
    cases h
  | _ => trivial

/-- **When trimming twice is trimming once**: exactly if, among the nodes that trimming gets
to, no text is held by placeholders, and what is in an element that only its marker has kept
from being trimmed would not change by it. A tree is so in particular if trimming gets to no
marker and no placeholder in it. -/
theorem idempotent_iff (t : Tree) :
    ((tree (tree t).result).result = (tree t).result ↔
      (∀ x, Reached t.roots (.text x) → ¬ Layout.IsHeld x.value) ∧
      ∀ tag children, Reached t.roots (.element tag children) → hasMarker tag = true →
        tag.name ∉ verbatimTags → (nodes children).result = children) ∧
    ((∀ tag children, Reached t.roots (.element tag children) → hasMarker tag = false) →
      (∀ x, Reached t.roots (.text x) → Layout.placeholder ∉ x.value.toList) →
      (tree (tree t).result).result = (tree t).result) := by
  have hroots : (tree (tree t).result).result = (tree t).result ↔
      ∀ m, Reached t.roots m → NothingLeft m := by
    rw [← trimmedAll_idempotent_iff]
    simp [result_tree]
  refine ⟨hroots.trans ⟨fun h => ?_, fun ⟨htext, helement⟩ m hm => ?_⟩, fun hmarker hfilled => ?_⟩
  · refine ⟨fun x hx => h _ hx, fun tag children hr hm hv => ?_⟩
    rw [result_nodes]
    exact h _ hr hm hv
  · cases m with
    | text x => exact htext x hm
    | element tag children =>
      intro hmark hv
      rw [← result_nodes]
      exact helement tag children hm hmark hv
    | _ => trivial
  · refine hroots.2 fun m hm => nothingLeft_of_unmarked_of_filled ?_ ?_
    · rintro tag children rfl
      exact hmarker tag children hm
    · rintro x rfl
      exact hfilled x hm

end Trim

end TemplateMarkup
