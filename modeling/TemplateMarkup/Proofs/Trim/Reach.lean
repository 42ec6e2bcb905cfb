import TemplateMarkup.Proofs.Trim.Rules

/-!
# What trimming gets to

Trimming does not go into an expansion, nor into an element whose content is left as it
is. The nodes it gets to are those that stand inside nothing of the kind.

## What is proved

* `Reached.inductionOn` — trimming gets to the roots and, from an element whose content is
  not left as it is, to its children.
* `reached_iff_exists_root`, `reached_element_iff` and `reached_leaf_iff` — so what it gets to
  can be found by going down from each root.
-/

namespace TemplateMarkup

namespace Trim

/-- **Shelter**: what stands in such a node is not trimmed. -/
def Shelters : Node → Prop
  | .element tag _ => KeepsContent tag
  | .expansion _ _ | .expansionCase _ => True
  | .text _ | .comment _ | .attr _ => False

/-- **Trimming gets to a node** if no node around it shelters it. -/
def Reached (roots : List Node) (n : Node) : Prop :=
  ∃ above, Stands roots above n ∧ ∀ a ∈ above, ¬ Shelters a

variable {roots : List Node} {n : Node}

theorem Reached.root (hn : n ∈ roots) : Reached roots n := ⟨[], .root hn, by simp⟩

theorem Reached.child {tag : Tag} {children : List Node} (h : Reached roots (.element tag children))
    (hk : ¬ KeepsContent tag) (hn : n ∈ children) : Reached roots n := by
  obtain ⟨above, hs, ha⟩ := h
  exact ⟨_, hs.child hn, List.forall_mem_cons.2 ⟨hk, ha⟩⟩

/-- Trimming gets to the roots, and from an element whose content is not left as it is to
its children. -/
@[elab_as_elim]
theorem Reached.inductionOn {motive : ∀ n, Reached roots n → Prop}
    (root : ∀ n (hn : n ∈ roots), motive n (.root hn))
    (child : ∀ tag children (h : Reached roots (.element tag children)) (hk : ¬ KeepsContent tag),
      motive _ h → ∀ n (hn : n ∈ children), motive n (h.child hk hn))
    (h : Reached roots n) : motive n h := by
  obtain ⟨above, hs, ha⟩ := h
  induction hs with
  | root hn => exact root _ hn
  | child hs hn ih =>
    obtain ⟨hk, ha⟩ := List.forall_mem_cons.1 ha
    exact child _ _ ⟨_, hs, ha⟩ hk (ih ha) _ hn
  | inExpansion => exact absurd trivial (ha _ (List.mem_cons_self ..))
  | inCase => exact absurd trivial (ha _ (List.mem_cons_self ..))

/-- What is got to from nodes that are got to is got to. -/
theorem Reached.trans {ns : List Node} (h : Reached ns n) (hns : ∀ m ∈ ns, Reached roots m) :
    Reached roots n := by
  induction h using Reached.inductionOn with
  | root n hn => exact hns n hn
  | child tag children _ hk ih n hn => exact ih.child hk hn

theorem Reached.mono {ns : List Node} (h : Reached ns n) (hns : ns ⊆ roots) : Reached roots n :=
  h.trans fun _ hm => .root (hns hm)

/-- Trimming gets to each root and what is below it by itself. -/
theorem reached_iff_exists_root : Reached roots n ↔ ∃ r ∈ roots, Reached [r] n := by
  constructor
  · intro h
    induction h using Reached.inductionOn with
    | root n hn => exact ⟨n, hn, .root (List.mem_singleton_self n)⟩
    | child tag children _ hk ih n hn =>
      obtain ⟨r, hr, h⟩ := ih
      exact ⟨r, hr, h.child hk hn⟩
  · rintro ⟨r, hr, h⟩
    exact h.mono (by simpa using hr)

/-- To say something of all nodes that trimming gets to, one root can be taken at a time. -/
theorem forall_reached_iff {P : Node → Prop} :
    (∀ m, Reached roots m → P m) ↔ ∀ r ∈ roots, ∀ m, Reached [r] m → P m := by
  constructor
  · intro h r hr m hm
    exact h m (reached_iff_exists_root.2 ⟨r, hr, hm⟩)
  · intro h m hm
    obtain ⟨r, hr, hm⟩ := reached_iff_exists_root.1 hm
    exact h r hr m hm

/-- Below an element trimming gets to what it gets to below the children, unless the
content is left as it is. -/
theorem reached_element_iff {tag : Tag} {children : List Node} :
    Reached [.element tag children] n ↔
      n = .element tag children ∨ ¬ KeepsContent tag ∧ Reached children n := by
  constructor
  · intro h
    induction h using Reached.inductionOn with
    | root n hn => exact .inl (List.mem_singleton.1 hn)
    | child tag' children' _ hk ih n hn =>
      rcases ih with he | ⟨hk', h⟩
      · obtain ⟨rfl, rfl⟩ := Node.element.inj he
        exact .inr ⟨hk, .root hn⟩
      · exact .inr ⟨hk', h.child hk hn⟩
  · rintro (rfl | ⟨hk, h⟩)
    · exact .root (List.mem_singleton_self _)
    · exact h.trans fun m hm => (Reached.root (List.mem_singleton_self _)).child hk hm

/-- From a node that is not an element trimming gets nowhere else. -/
theorem reached_leaf_iff {m : Node} (hm : ∀ tag children, m ≠ .element tag children) :
    Reached [m] n ↔ n = m := by
  constructor
  · intro h
    induction h using Reached.inductionOn with
    | root n hn => exact List.mem_singleton.1 hn
    | child tag children _ _ ih => exact absurd ih.symm (hm tag children)
  · rintro rfl
    exact .root (List.mem_singleton_self n)

end Trim

end TemplateMarkup
