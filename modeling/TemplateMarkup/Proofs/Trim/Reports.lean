import TemplateMarkup.Proofs.Trim.Passes
import TemplateMarkup.Proofs.Trim.Places

/-!
# What a run reports

A walk reports an element when it opens it, if the content of the element is left as it is
and the element does not stand in such content itself. The order of the reports is that of
the source. This is shown for a walk with an explicit stack, which does not know of its
ancestors more than the mode of the level it stands in, and then for all the ways to go
through a tree.

## The model

`announced` is what should be reported, read off the list of all places: it says nothing of
walks, modes or steps.

## What is proved

* `Walk.toReport_step` — a step reports what is next to be reported, or nothing.
* `Mode.reports_walk` — so a walk reports what `Mode.reportsAll` says for its nodes.
* `announced_eq` — which is what is announced for the places.
* `reports_run_pass` and `tasks_run_pass` — what every pass reports, and what its tasks do.
-/

namespace TemplateMarkup

namespace Trim

/-! ### What should be reported -/

/-- What is reported of a place: an element whose content is left as it is, if nothing
around it shelters it. -/
def report? (p : Place) : Option Report :=
  match p.node with
  | .element tag _ => if KeepsContent tag ∧ Exposed p.above then some (.kept tag.name) else none
  | _ => none

/-- What is reported of the nodes `ns` and all that is in them, in document order. -/
def announced (ns : List Node) : List Report := (Node.placesAll ns).filterMap report?

theorem report?_under_of_exposed {around : List Node} (h : Exposed around) (p : Place) :
    report? (p.under around) = report? p := by
  simp only [report?, Place.node_under, Place.above_under, exposed_append, h, and_true]

theorem report?_under_of_not_exposed {around : List Node} (h : ¬ Exposed around) (p : Place) :
    report? (p.under around) = none := by
  simp only [report?, Place.node_under, Place.above_under, exposed_append, h, and_false, if_false]
  split <;> rfl

/-- Nothing is reported of what a node shelters. -/
theorem filterMap_report?_of_shelters {n : Node} (hn : Shelters n) :
    n.places.filterMap report? = (report? ⟨[], n⟩).toList := by
  have hinner : (n.inner.flatMap fun q =>
      (q.node.places.map (Place.under q.above)).filterMap report?) = [] := by
    refine List.flatMap_eq_nil_iff.2 fun q hq => ?_
    have h := not_exposed_of_mem_inner hn hq
    simp only [List.filterMap_map, Function.comp_def, report?_under_of_not_exposed h,
      List.filterMap_none]
  rw [Node.places_eq, List.filterMap_cons, List.filterMap_flatMap, hinner]
  cases report? ⟨[], n⟩ <;> rfl

/-- What is reported of the places of a level, if it is known of each of its nodes. -/
theorem announced_eq_of {ns : List Node}
    (h : ∀ n ∈ ns, n.places.filterMap report? = (keptIn n).map .kept) :
    announced ns = (keptInAll ns).map .kept := by
  rw [announced, Node.placesAll_eq_flatMap, List.filterMap_flatMap, keptInAll_eq_flatMap,
    List.map_flatMap]
  exact List.flatMap_congr h

/-- What is reported of the places in a node, by going down from it. -/
theorem filterMap_report?_places (n : Node) :
    n.places.filterMap report? = (keptIn n).map .kept := by
  induction n using Node.inductionOn with
  | element tag children ih =>
    by_cases hk : KeepsContent tag
    · rw [filterMap_report?_of_shelters (n := .element tag children) hk]
      simp [report?, keptIn, hk, preserves_iff.2 hk, exposed_nil]
    · have hself : report? ⟨[], .element tag children⟩ = none := by simp [report?, hk]
      have hbelow := report?_under_of_exposed (exposed_element hk children)
      rw [Node.places, List.filterMap_cons_none hself, List.filterMap_map]
      simp only [Function.comp_def, hbelow]
      rw [← announced, announced_eq_of ih, keptIn, if_neg (mt preserves_iff.1 hk)]
  | expansion s cases => exact filterMap_report?_of_shelters trivial
  | expansionCase c => exact filterMap_report?_of_shelters trivial
  | _ => rfl

/-- What is announced for a level is what going down from its nodes finds. -/
theorem announced_eq (ns : List Node) : announced ns = (keptInAll ns).map .kept :=
  announced_eq_of fun n _ => filterMap_report?_places n

theorem announced_eq_flatMap (ns : List Node) : announced ns = ns.flatMap fun n => announced [n] := by
  simp only [announced_eq, keptInAll_eq_flatMap, List.map_flatMap, List.flatMap_singleton]

/-! ### What a walk reports -/

namespace Mode

/-- What is reported while the nodes of a level of this mode are walked. -/
def reportsAll : Mode → List Node → List Report
  | trim, ns => announced ns
  | keep, _ => []

@[simp] theorem reportsAll_nil (m : Mode) : m.reportsAll [] = [] := by cases m <;> rfl

/-- An element is reported before what is in it, and that before what comes behind it. -/
theorem reportsAll_element (m : Mode) (tag : Tag) (children ns : List Node) :
    m.reportsAll (.element tag children :: ns) =
      m.reports tag ++ ((m.below tag).reportsAll children ++ m.reportsAll ns) := by
  cases m with
  | keep => rfl
  | trim =>
    by_cases h : preserves tag <;>
      simp [reportsAll, announced_eq, keptInAll, keptIn, reports, below, h]

/-- Nothing is reported of any other node. -/
theorem reportsAll_leaf (m : Mode) {n : Node} (hn : ∀ tag children, n ≠ .element tag children)
    (ns : List Node) : m.reportsAll (n :: ns) = m.reportsAll ns := by
  cases m with
  | keep => rfl
  | trim =>
    rw [reportsAll, announced_eq, keptInAll]
    cases n with
    | element tag children => exact absurd rfl (hn tag children)
    | _ => exact (announced_eq ns).symm

end Mode

/-- What is still to be reported of a level. -/
def Level.toReport (l : Level) : List Report := l.mode.reportsAll l.todo

namespace Walk

/-- What is still to be reported: of the level the walk stands in, and then of the levels
around it. -/
def toReport (w : Walk) : List Report :=
  w.level.toReport ++ w.stack.flatMap fun e => e.outer.toReport

/-- A walk that is about to begin has to report what there is to report of its nodes. -/
theorem toReport_start (m : Mode) (ns : List Node) : (start m ns).toReport = m.reportsAll ns := by
  simp [toReport, Level.toReport, start]

theorem toReport_of_step_eq_none {w : Walk} (h : w.step = none) : w.toReport = [] := by
  obtain ⟨ht, hs⟩ := step_eq_none_iff.1 h
  simp [toReport, Level.toReport, ht, hs]

/-- A step makes one report at most, and it is what is next to be reported. -/
theorem toReport_step {w w' : Walk} (h : w.step = some w') :
    ∃ r : Option Report, w'.reports = r.toList ++ w.reports ∧
      w.toReport = r.toList ++ w'.toReport := by
  obtain ⟨tag, children, rest, ht, rfl⟩ | ⟨n, rest, ht, hn, rfl⟩ | ⟨e, stack, ht, hs, rfl⟩ :=
    step_cases h
  · obtain ⟨r, hr⟩ : ∃ r : Option Report, w.level.mode.reports tag = r.toList := by
      cases w.level.mode with
      | keep => exact ⟨none, rfl⟩
      | trim =>
        by_cases hk : preserves tag
        · exact ⟨some (.kept tag.name), if_pos hk⟩
        · exact ⟨none, if_neg hk⟩
    refine ⟨r, ?_, ?_⟩
    · rw [enter, hr]
      cases r <;> rfl
    · simp [toReport, Level.toReport, enter, ht, Mode.reportsAll_element, hr]
  · refine ⟨none, rfl, ?_⟩
    simp [toReport, Level.toReport, visit, Level.push, ht, Mode.reportsAll_leaf _ hn]
  · refine ⟨none, rfl, ?_⟩
    simp [toReport, Level.toReport, close, Level.push, ht, hs]

/-- All that a walk reports: what it has reported, and what it will. -/
def allReports (w : Walk) : List Report := w.reports.reverse ++ w.toReport

/-- What is next to be reported has been reported after a step, and nothing else changes. -/
theorem allReports_step {w w' : Walk} (h : w.step = some w') : w'.allReports = w.allReports := by
  obtain ⟨r, hmade, hnext⟩ := toReport_step h
  rw [allReports, allReports, hmade, hnext]
  cases r <;> simp

/-- A walk that is at its end has reported all that it had to report from the start. -/
theorem reports_run (w : Walk) : w.run.reports.reverse = w.allReports := by
  have hrun := eq_run_of_step allReports_step w
  rwa [allReports, toReport_of_step_eq_none (step_run w), List.append_nil] at hrun

end Walk

/-- What is reported when the nodes of a level are walked. -/
theorem Mode.reports_walk (m : Mode) (ns : List Node) : (m.walk ns).reports = m.reportsAll ns := by
  rw [Mode.walk, Walk.reports_run, Walk.allReports, Walk.toReport_start]
  rfl

theorem reports_nodes (ns : List Node) : (nodes ns).reports = announced ns :=
  Mode.reports_walk .trim ns

/-! ### One node at a time -/

/-- A node that is trimmed by itself is reported as it is among others. -/
theorem reports_node (n : Node) : (node n).reports = announced [n] := by
  cases n with
  | element tag children =>
    rw [node, element, Mode.reports_walk, ← reports_nodes, nodes, Mode.reports_walk,
      Mode.reportsAll_element, Mode.reportsAll_nil, List.append_nil]
  | _ => rw [announced_eq]; rfl

theorem reports_oneByOne (ns : List Node) : (oneByOne ns).reports = announced ns := by
  rw [announced_eq_flatMap, oneByOne, List.flatMap_map]
  simp only [reports_node]

/-! ### Passes -/

/-- What is announced is of the lesser level, and all of it says the same. -/
theorem level_of_mem_announced {ns : List Node} {r : Report} (h : r ∈ announced ns) :
    r.level = .trace ∧ r.message = "preserving whitespace in element subtree" := by
  rw [announced_eq] at h
  obtain ⟨name, -, rfl⟩ := List.mem_map.1 h
  exact ⟨rfl, rfl⟩

/-- What a pass itself reports, in terms of what is announced for the roots and of three counts. -/
theorem reports_run_pass (p : Pass) (t : Tree) :
    (p.run t).reports =
      match p with
      | .whole | .unless false =>
        announced t.roots ++ [.trimmed ⟨t.roots.length, (trimmedAll t.roots).length, t.errors.length⟩]
      | .sideBySide =>
        [.trimmedSideBySide ⟨t.roots.length, (trimmedAll t.roots).length, t.errors.length⟩]
      | .unless true => [.skipped]
      | .allRoots | .eachRoot => announced t.roots := by
  have htree : (tree t).reports = announced t.roots ++
      [.trimmed ⟨t.roots.length, (trimmedAll t.roots).length, t.errors.length⟩] := by
    rw [← reports_nodes, ← result_nodes]
    rfl
  cases p with
  | whole => exact htree
  | sideBySide =>
    rw [← result_sideBySide]
    rfl
  | «unless» preserve =>
    cases preserve
    · exact htree
    · rfl
  | allRoots => exact reports_nodes t.roots
  | eachRoot => exact reports_oneByOne t.roots

/-- What the tasks of a pass report: side by side, there is one for each of the roots. -/
theorem tasks_run_pass (p : Pass) (t : Tree) :
    (p.run t).tasks = if p = .sideBySide then t.roots.map fun n => announced [n] else [] := by
  cases p with
  | sideBySide =>
    simp only [Pass.run, treeSideBySide, sideBySide, replaceRoots, List.map_map, Function.comp_def,
      Task.spawn, reports_nodes, if_true]
  | «unless» preserve => cases preserve <;> rfl
  | _ => rfl

end Trim

end TemplateMarkup
