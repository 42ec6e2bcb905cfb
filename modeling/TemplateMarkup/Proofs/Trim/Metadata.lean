import TemplateMarkup.Proofs.Relabel
import TemplateMarkup.Proofs.Trim.Reports

/-!
# What trimming never looks at

Trimming reads the names of elements and attributes and the values of texts. Whatever else a tree
carries is handed on: what becomes of a relabelled tree is what becomes of the tree, relabelled.
So two trees that differ in nothing else are told apart by no run, neither by what comes of them
nor by what is reported; in particular it makes no difference what value the marker has.

## What is proved

* `Relabelling.trimmed?_node` — to relabel a node and to trim it can be done in either order.
* `Relabelling.trimmed?_place` — so can they at every place of a tree.
* `Relabelling.report?_place` — the same is reported of a place.
* `metadata_not_interpreted` — a pass treats a relabelled tree as it treats the tree, and the
  problems that were found in a tree make no difference to it.
-/

namespace TemplateMarkup

namespace Relabelling

open Trim

variable (r : Relabelling)

/-! ### Tags -/

/-- Names of attributes stay, and with them the marker. -/
theorem keepsContent_tag {t : Tag} : KeepsContent (r.tag t) ↔ KeepsContent t := by
  refine or_congr Iff.rfl ?_
  simp only [tag, List.mem_map, exists_exists_and_eq_and, attr]

theorem unmarked_tag (t : Tag) : unmarked (r.tag t) = (unmarked t).map r.attr := by
  rw [unmarked, unmarked, tag, List.filter_map]
  rfl

theorem strip_tag (t : Tag) : strip (r.tag t) = r.tag (strip t) := by
  rw [strip, strip, unmarked_tag]
  rfl

/-! ### Nodes -/

/-- What becomes of a relabelled level, if it is known of each of its nodes. -/
theorem trimmedAll_nodes_of {ns : List Node}
    (h : ∀ n ∈ ns, Trim.trimmed? (r.node n) = (Trim.trimmed? n).map r.node) :
    trimmedAll (r.nodes ns) = r.nodes (trimmedAll ns) := by
  induction ns with
  | nil => rfl
  | cons n ns ih =>
    rw [nodes, trimmedAll, trimmedAll, h n (List.mem_cons_self ..),
      ih fun m hm => h m (List.mem_cons_of_mem _ hm)]
    cases Trim.trimmed? n <;> rfl

/-- To relabel a node and to trim it can be done in either order. -/
theorem trimmed?_node (n : Node) :
    Trim.trimmed? (r.node n) = (Trim.trimmed? n).map r.node := by
  induction n using Node.inductionOn with
  | text t =>
    rw [node, trimmed?_text, trimmed?_text]
    by_cases h : Layout.isBlank t.value = true
    · rw [if_pos h]
      exact if_pos h
    · rw [if_neg h]
      exact if_neg h
  | attr a =>
    rw [node, trimmed?_attr, trimmed?_attr]
    by_cases h : a.name = marker
    · rw [if_pos h]
      exact if_pos h
    · rw [if_neg h]
      exact if_neg h
  | comment c => rfl
  | expansion s cases => rfl
  | expansionCase c => rfl
  | element t children ih =>
    rw [node]
    by_cases hk : KeepsContent t
    · rw [trimmed?_element_of_kept hk, trimmed?_element_of_kept (r.keepsContent_tag.2 hk), strip_tag]
      rfl
    · rw [trimmed?_element_of_not_kept hk,
        trimmed?_element_of_not_kept (mt r.keepsContent_tag.1 hk), strip_tag,
        r.trimmedAll_nodes_of ih]
      rfl

theorem trimmedAll_nodes (ns : List Node) : trimmedAll (r.nodes ns) = r.nodes (trimmedAll ns) :=
  r.trimmedAll_nodes_of fun n _ => r.trimmed?_node n

/-! ### Places -/

theorem shelters_node {n : Node} : Shelters (r.node n) ↔ Shelters n := by
  cases n with
  | element t children => exact r.keepsContent_tag
  | _ => exact Iff.rfl

theorem exposed_map {above : List Node} : Exposed (above.map r.node) ↔ Exposed above := by
  simp only [Exposed, List.forall_mem_map, shelters_node]

theorem outcome?_map (above : List Node) (n : Node) :
    outcome? (above.map r.node) (r.node n) = (outcome? above n).map r.node := by
  by_cases h : Exposed above
  · rw [outcome?_of_exposed h, outcome?_of_exposed (r.exposed_map.2 h), trimmed?_node]
  · rw [outcome?_of_not_exposed h, outcome?_of_not_exposed (mt r.exposed_map.1 h)]
    rfl

theorem outcomes_map (above : List Node) :
    outcomes (above.map r.node) = (outcomes above).map r.node := by
  induction above with
  | nil => rfl
  | cons a above ih =>
    rw [List.map_cons, outcomes, outcomes, ih, outcome?_map, List.map_append]
    cases outcome? above a <;> rfl

/-- A place of a relabelled tree is left if it would have been left in the tree, and what is left
of it is the same, relabelled. -/
theorem trimmed?_place (p : Place) : (r.place p).trimmed? = p.trimmed?.map r.place := by
  rw [Place.trimmed?, Place.trimmed?, place, outcome?_map, outcomes_map, Option.map_map,
    Option.map_map]
  rfl

/-! ### Reports -/

/-- The same is reported of a relabelled place. -/
theorem report?_place (p : Place) : report? (r.place p) = report? p := by
  obtain ⟨above, n⟩ := p
  cases n with
  | element t children =>
    have hiff : (KeepsContent (r.tag t) ∧ Exposed (above.map r.node)) ↔
        (KeepsContent t ∧ Exposed above) := and_congr r.keepsContent_tag r.exposed_map
    simp only [report?, place, node, hiff]
    rfl
  | _ => rfl

theorem announced_nodes (ns : List Node) : announced (r.nodes ns) = announced ns := by
  rw [announced, placesAll_nodes, List.filterMap_map, announced]
  exact List.filterMap_congr fun p _ => r.report?_place p

end Relabelling

namespace Trim

open Relabelling

/-! ### Passes -/

theorem result_run_relabel (r : Relabelling) (p : Pass) (t : Tree) :
    (p.run (r.tree t)).result = r.tree (p.run t).result := by
  rw [result_run_pass, result_run_pass]
  split
  · rfl
  · rw [result_tree, result_tree, Relabelling.tree, Relabelling.tree, r.trimmedAll_nodes]

theorem reports_run_relabel (r : Relabelling) (p : Pass) (t : Tree) :
    (p.run (r.tree t)).reports = (p.run t).reports := by
  rw [reports_run_pass, reports_run_pass]
  simp only [Relabelling.tree, announced_nodes, trimmedAll_nodes, length_nodes]

theorem tasks_run_relabel (r : Relabelling) (p : Pass) (t : Tree) :
    (p.run (r.tree t)).tasks = (p.run t).tasks := by
  have hroot (n : Node) : announced [r.node n] = announced [n] := r.announced_nodes [n]
  rw [tasks_run_pass, tasks_run_pass]
  simp only [Relabelling.tree, nodes_eq_map, List.map_map, Function.comp_def, hroot]

/-- **Metadata is not interpreted**: of a relabelled tree every pass makes what it makes of the
tree, relabelled, and it reports the same; the number of roots is the same, and the places that
are left are the same ones. So if two trees are alike but for what a relabelling takes away, a
pass leaves them so and reports the same of both. Nor does it matter what problems were found in
a tree: with others, the same is left of the roots, and the same elements are reported. -/
theorem metadata_not_interpreted (r : Relabelling) (p : Pass) (t : Tree) :
    (p.run (r.tree t)).result = r.tree (p.run t).result ∧
    ((p.run (r.tree t)).reports = (p.run t).reports ∧
      (p.run (r.tree t)).tasks = (p.run t).tasks) ∧
    (p.run (r.tree t)).result.roots.length = (p.run t).result.roots.length ∧
    (Node.placesAll (r.tree t).roots = (Node.placesAll t.roots).map r.place ∧
      Node.placesAll (tree t).result.roots = (Node.placesAll t.roots).filterMap Place.trimmed? ∧
      ∀ q, (r.place q).trimmed? = q.trimmed?.map r.place) ∧
    (∀ u, r.tree t = r.tree u → r.tree (p.run t).result = r.tree (p.run u).result ∧
      (p.run t).reports = (p.run u).reports ∧ (p.run t).tasks = (p.run u).tasks) ∧
    ∀ errors, (p.run { t with errors := errors }).result = { (p.run t).result with errors := errors } ∧
      (p.run { t with errors := errors }).reports.filter (·.level = .trace) =
        (p.run t).reports.filter (·.level = .trace) ∧
      (p.run { t with errors := errors }).tasks = (p.run t).tasks := by
  refine ⟨result_run_relabel r p t, ⟨reports_run_relabel r p t, tasks_run_relabel r p t⟩, ?_,
    ⟨r.placesAll_nodes t.roots, ?_, r.trimmed?_place⟩, fun u h => ⟨?_, ?_, ?_⟩,
    fun errors => ⟨?_, ?_, ?_⟩⟩
  · rw [result_run_relabel]
    exact r.length_nodes _
  · rw [result_tree]
    exact placesAll_trimmedAll t.roots
  · rw [← result_run_relabel, h, result_run_relabel]
  · rw [← reports_run_relabel r, h, reports_run_relabel]
  · rw [← tasks_run_relabel r, h, tasks_run_relabel]
  · rw [result_run_pass, result_run_pass]
    split
    · rfl
    · rw [result_tree, result_tree]
  · rw [reports_run_pass, reports_run_pass]
    split <;> simp [Report.level]
  · rw [tasks_run_pass, tasks_run_pass]

end Trim

end TemplateMarkup
