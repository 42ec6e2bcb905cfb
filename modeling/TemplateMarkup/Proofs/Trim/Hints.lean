import TemplateMarkup.Hints
import TemplateMarkup.Proofs.Trim.Content

/-!
# Hints survive trimming

Hints are read off the attributes of an element, and trimming takes attributes away: the marker,
however often an element carries it and wherever it stands among the others. No hint comes from
the marker, and no element goes or changes its place, so it does not matter whether the hints of a
template are read before it is trimmed or after that.

## What is proved

* `Found.add_of_marker` — the marker adds nothing to what has been found among attributes.
* `ofTag_strip` — so an element has the hints that it has without the marker.
* `hintsWhere_trimmedAll` — the hints of a tree are the same before and after, in document order.
* `hints_kept` — and so they are after any passes.
-/

namespace TemplateMarkup

/-! ### The hints of a tree -/

/-- The hints of a node, if it is an element. -/
def Node.hints? : Node → Option Hints
  | .element tag _ => some (Hints.ofTag tag)
  | _ => none

/-- The hints of the elements at certain places of a tree, in document order. -/
def hintsWhere (keep : Place → Bool) (roots : List Node) : List Hints :=
  ((Node.placesAll roots).filter keep).filterMap fun p => p.node.hints?

namespace Trim

/-! ### Attributes that are not looked at -/

/-- The marker is none of the names that are looked for, in whatever case. -/
theorem Found.add_of_marker (f : Hints.Found) {a : Attribute} (ha : a.name = marker) :
    f.add a = f := by
  have hselect : Hints.sameName marker "select" = false := by decide
  have hhref : Hints.sameName marker "href" = false := by decide
  have hrel : Hints.sameName marker "rel" = false := by decide
  have hbind : marker ≠ "ngNonBindable" := by decide
  have halias : marker ≠ "ngProjectAs" := by decide
  simp only [Hints.Found.add, ha, hselect, hhref, hrel, hbind, halias, false_and, if_false,
    Bool.false_eq_true]

/-- What is found among attributes is found among those that are not the marker. -/
theorem Found.ofAttributes_unmarked (tag : Tag) :
    Hints.Found.ofAttributes (unmarked tag) = Hints.Found.ofAttributes tag.attributes := by
  rw [Hints.Found.ofAttributes, unmarked, List.foldl_filter]
  refine List.foldl_ext _ _ _ fun f a _ => ?_
  by_cases ha : a.name = marker
  · simp [ha, Found.add_of_marker f ha]
  · simp [ha]

/-- An element has the hints that it has without the marker. -/
@[simp] theorem ofTag_strip (tag : Tag) : Hints.ofTag (strip tag) = Hints.ofTag tag := by
  simp only [Hints.ofTag, strip, Found.ofAttributes_unmarked]

/-! ### What becomes of the hints of a tree -/

/-- What is left of a node has its hints. -/
theorem hints?_of_trimmed? (n : Node) : (trimmed? n).bind Node.hints? = n.hints? := by
  cases n with
  | text t =>
    rw [trimmed?_text]
    split <;> rfl
  | attr a =>
    rw [trimmed?_attr]
    split <;> rfl
  | element tag children =>
    rw [trimmed?_element, Option.bind_some, Node.hints?, Node.hints?, ofTag_strip]
  | comment c => rfl
  | expansion s cases => rfl
  | expansionCase c => rfl

/-- So it is wherever the node stands. -/
theorem hints?_of_outcome? (above : List Node) (n : Node) :
    (outcome? above n).bind Node.hints? = n.hints? := by
  by_cases h : Exposed above
  · rw [outcome?_of_exposed h, hints?_of_trimmed?]
  · rw [outcome?_of_not_exposed h, Option.bind_some]

/-- The hints of the elements at certain places are the same before and after, if trimming
respects the choice of the places. -/
theorem hintsWhere_trimmedAll {keep : Place → Bool}
    (hkeep : ∀ p q, p.trimmed? = some q → keep q = keep p) (ns : List Node) :
    hintsWhere keep (trimmedAll ns) = hintsWhere keep ns := by
  rw [hintsWhere, hintsWhere, placesAll_trimmedAll, List.filterMap_filter, List.filterMap_filter,
    List.filterMap_filterMap]
  refine List.filterMap_congr fun p _ => ?_
  have hnode := hints?_of_outcome? p.above p.node
  cases h : p.trimmed? with
  | none =>
    rw [Option.map_eq_none_iff.1 h] at hnode
    rw [← hnode, Option.bind_none, Option.bind_none, ite_self]
  | some q =>
    obtain ⟨n, hn, rfl⟩ := Option.map_eq_some_iff.1 h
    rw [hn] at hnode
    rw [Option.bind_some, hkeep p _ h, ← hnode, Option.bind_some]

theorem hintsWhere_run {keep : Place → Bool}
    (hkeep : ∀ p q, p.trimmed? = some q → keep q = keep p) (p : Pass) (t : Tree) :
    hintsWhere keep (p.run t).result.roots = hintsWhere keep t.roots := by
  rw [result_run_pass]
  split
  · rfl
  · rw [result_tree]
    exact hintsWhere_trimmedAll hkeep t.roots

/-- No run of passes changes the hints. -/
theorem hintsWhere_foldl_run {keep : Place → Bool}
    (hkeep : ∀ p q, p.trimmed? = some q → keep q = keep p) (ps : List Pass) (t : Tree) :
    hintsWhere keep (ps.foldl (fun t p => (p.run t).result) t).roots = hintsWhere keep t.roots := by
  induction ps generalizing t with
  | nil => rfl
  | cons p ps ih => rw [List.foldl_cons, ih, hintsWhere_run hkeep]

/-! ### Trees -/

/-- **Hints survive trimming**: the elements of a tree have the same hints in the same order
before it is trimmed and after that, those in expansions counted or not, and so they have after
any passes, one after the other. An element that is trimmed by itself is an element with the hints
that it had. -/
theorem hints_kept (t : Tree) :
    hintsWhere (fun _ => true) (tree t).result.roots = hintsWhere (fun _ => true) t.roots ∧
    hintsWhere Place.outsideExpansions (tree t).result.roots =
      hintsWhere Place.outsideExpansions t.roots ∧
    (∀ ps : List Pass, hintsWhere (fun _ => true) (ps.foldl (fun t p => (p.run t).result) t).roots =
        hintsWhere (fun _ => true) t.roots ∧
      hintsWhere Place.outsideExpansions (ps.foldl (fun t p => (p.run t).result) t).roots =
        hintsWhere Place.outsideExpansions t.roots) ∧
    ∀ tag children, ∃ tag' children', (element tag children).result = .element tag' children' ∧
      Hints.ofTag tag' = Hints.ofTag tag := by
  have hall : ∀ p q : Place, p.trimmed? = some q → (fun _ : Place => true) q = (fun _ => true) p :=
    fun _ _ _ => rfl
  have houtside : ∀ p q : Place, p.trimmed? = some q → q.outsideExpansions = p.outsideExpansions :=
    fun _ _ => outsideExpansions_of_trimmed?
  refine ⟨hintsWhere_run hall .whole t, hintsWhere_run houtside .whole t, fun ps => ?_, ?_⟩
  · exact ⟨hintsWhere_foldl_run hall ps t, hintsWhere_foldl_run houtside ps t⟩
  · intro tag children
    have hresult := result_node (.element tag children)
    rw [trimmed?_element] at hresult
    exact ⟨strip tag, _, Option.some.inj hresult, ofTag_strip tag⟩

end Trim

end TemplateMarkup
