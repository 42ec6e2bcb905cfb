import TemplateMarkup.Trim.Walk

/-!
# Trimming templates

The ways to have a template trimmed. All of them make the same of its nodes; they differ
in how the roots are gone through and in what is reported.

## The model

A run gives an `Outcome`: what came of it, and what was reported. The run itself makes
its reports in one order. Tasks that run side by side make theirs before that, each in an
order of its own; how the reports of two tasks follow each other is left to chance, so they
are kept apart. `nodes` walks a whole list of nodes, `node` takes one node by itself. The
roots of a tree can be walked together (`tree`), each in a task of its own
(`treeSideBySide`), or one after the other (`Pass.eachRoot`).
-/

namespace TemplateMarkup

namespace Trim

/-- What came of a run, and what was reported on the way. -/
structure Outcome (α : Type) where
  /-- What came of it. -/
  result : α
  /-- What the run itself reported, in this order. -/
  reports : List Report
  /-- What each of its tasks reported before that, in this order. -/
  tasks : List (List Report) := []
  deriving DecidableEq

/-! ### Nodes -/

namespace Mode

/-- Walks a list of nodes that are treated in this way. -/
def walk (mode : Mode) (ns : List Node) : Outcome (List Node) :=
  let w := (Walk.start mode ns).run
  { result := w.level.result, reports := w.reports.reverse }

end Mode

/-- Trims the nodes of one level and all below them. -/
def nodes (ns : List Node) : Outcome (List Node) := Mode.trim.walk ns

/-- Trims one element: its tag loses the marker, its children are walked by
themselves. -/
def element (tag : Tag) (children : List Node) : Outcome Node :=
  let inner := (Mode.trim.below tag).walk children
  { result := .rebuild tag (attributes tag.attributes) inner.result
    reports := Mode.trim.reports tag ++ inner.reports }

/-- Trims one node, whatever its kind. -/
def node : Node → Outcome (Option Node)
  | .element tag children =>
    let trimmed := element tag children
    { result := some trimmed.result, reports := trimmed.reports }
  | n => { result := leaf? n, reports := [] }

/-- Trims nodes one after the other, each by itself. -/
def oneByOne (ns : List Node) : Outcome (List Node) :=
  let visited := ns.map node
  { result := visited.filterMap (·.result), reports := visited.flatMap (·.reports) }

/-- Trims nodes side by side, each in a task of its own, and puts what came of them
together in the order of the nodes. -/
def sideBySide (ns : List Node) : Outcome (List Node) :=
  let tasks := ns.map fun n => Task.spawn fun _ => nodes [n]
  let ended := tasks.map Task.get
  { result := ended.flatMap (·.result)
    reports := []
    tasks := ended.map (·.reports) }

/-! ### Trees -/

/-- The tree with its roots replaced, and the counts of before and after. -/
def replaceRoots (t : Tree) (roots : List Node) : Tree × Counts :=
  ({ t with roots := roots }, ⟨t.roots.length, roots.length, t.errors.length⟩)

/-- Trims a tree. The known problems stay with it. -/
def tree (t : Tree) : Outcome Tree :=
  let roots := nodes t.roots
  let (trimmed, counts) := replaceRoots t roots.result
  { result := trimmed, reports := roots.reports ++ [.trimmed counts] }

/-- Trims a tree, its roots side by side. -/
def treeSideBySide (t : Tree) : Outcome Tree :=
  let roots := sideBySide t.roots
  let (trimmed, counts) := replaceRoots t roots.result
  { result := trimmed, reports := [.trimmedSideBySide counts], tasks := roots.tasks }

/-- Trims a tree unless its layout is to be preserved. -/
def treeUnless (preserve : Bool) (t : Tree) : Outcome Tree :=
  if preserve then { result := t, reports := [.skipped] } else tree t

/-! ### Passes -/

/-- The ways to go through a tree. -/
inductive Pass where
  /-- The roots together. -/
  | whole
  /-- The roots side by side. -/
  | sideBySide
  /-- The roots together, unless the options ask for layout to be preserved. -/
  | unless (preserve : Bool)
  /-- The roots as a bare list of nodes, without counting them. -/
  | allRoots
  /-- The roots one after the other, each by itself. -/
  | eachRoot
  deriving DecidableEq

/-- Goes through a tree. -/
def Pass.run (p : Pass) (t : Tree) : Outcome Tree :=
  match p with
  | .whole => tree t
  | .sideBySide => treeSideBySide t
  | .unless preserve => treeUnless preserve t
  | .allRoots =>
    let roots := nodes t.roots
    { result := { t with roots := roots.result }, reports := roots.reports }
  | .eachRoot =>
    let roots := oneByOne t.roots
    { result := { t with roots := roots.result }, reports := roots.reports }

end Trim

end TemplateMarkup
