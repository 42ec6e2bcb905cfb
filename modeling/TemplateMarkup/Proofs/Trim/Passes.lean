import TemplateMarkup.Proofs.Trim.Rules
import Mathlib.Logic.Function.Iterate
import Mathlib.Logic.Relation

/-!
# The passes agree

A tree can be gone through in several ways (`Pass`), and all of them make the same of it.
Behind this is that a walk over several nodes is as good as a walk over each of them: no
node has any influence on what becomes of its neighbours, not even one that goes.

## The model

Where the roots are trimmed side by side, each has a walk of its own, and at any moment
one of these walks takes a step, whichever (`Advance`). The order of the steps is left to
chance. That the walks are kept in the order of the roots, and that what came out of them is
put together in this order, is all that is assumed of whoever runs them.

## What is proved

* `result_node` and `result_oneByOne` — a node by itself becomes what it becomes among others.
* `ends_iff` — in whatever order the walks side by side take their steps, the same comes
  out of them, and there always is such an order.
* `passes_agree` — the result of a pass, and of any number of passes one after the other.
-/

namespace TemplateMarkup

namespace Trim

/-! ### One node at a time -/

theorem trimmedAll_singleton (n : Node) : trimmedAll [n] = (trimmed? n).toList := by
  simp [trimmedAll]

theorem flatMap_trimmedAll_singleton (ns : List Node) :
    (ns.flatMap fun n => trimmedAll [n]) = trimmedAll ns := by
  induction ns with
  | nil => rfl
  | cons n ns ih => rw [List.flatMap_cons, ih, trimmedAll_singleton, trimmedAll]

/-- What the mode below an element makes of its children. -/
theorem all_below_trim (tag : Tag) (children : List Node) :
    (Mode.trim.below tag).all children =
      if preserves tag then children else trimmedAll children := by
  by_cases h : preserves tag <;> simp [Mode.below, Mode.all, h]

/-- A node that is trimmed by itself becomes what it becomes among others. -/
theorem result_node (n : Node) : (node n).result = trimmed? n := by
  cases n with
  | element tag children =>
    simp only [node, element, Mode.result_walk, all_below_trim, attributes_eq_unmarked,
      trimmed?_element]
    rfl
  | _ => rfl

theorem result_oneByOne (ns : List Node) : (oneByOne ns).result = trimmedAll ns := by
  rw [trimmedAll_eq_filterMap]
  simp only [oneByOne, List.filterMap_map, Function.comp_def, result_node]

theorem result_sideBySide (ns : List Node) : (sideBySide ns).result = trimmedAll ns := by
  rw [← flatMap_trimmedAll_singleton]
  simp only [sideBySide, List.flatMap_map, Task.spawn, result_nodes]

/-! ### Side by side, in any order -/

/-- One of several walks takes a step. -/
inductive Advance : List Walk → List Walk → Prop where
  /-- It is any one that is not at its end. -/
  | step (before after : List Walk) {w w' : Walk} : w.step = some w' →
      Advance (before ++ w :: after) (before ++ w' :: after)

/-- What comes out of several walks, put together in their order. -/
def gather (ws : List Walk) : List Node := ws.flatMap fun w => w.level.result

/-- `Ends ws ns`: the walks `ws` can take their steps in such an order that at last none
of them has any left, and that `ns` has come out of them then. -/
def Ends (ws : List Walk) (ns : List Node) : Prop :=
  ∃ ws', Relation.ReflTransGen Advance ws ws' ∧ (∀ w ∈ ws', w.step = none) ∧ gather ws' = ns

/-- What no step of a walk changes, no walk side by side with others changes. -/
theorem flatMap_eq_of_advance {α : Type} {f : Walk → List α}
    (hf : ∀ {w w' : Walk}, w.step = some w' → f w' = f w) {ws ws' : List Walk}
    (h : Relation.ReflTransGen Advance ws ws') : ws'.flatMap f = ws.flatMap f := by
  induction h with
  | refl => rfl
  | tail _ hs ih =>
    obtain ⟨before, after, hw⟩ := hs
    rw [← ih]
    simp [hf hw]

/-- What several walks come to does not change while they take their steps. -/
theorem flatMap_final_of_advance {ws ws' : List Walk} (h : Relation.ReflTransGen Advance ws ws') :
    ws'.flatMap Walk.final = ws.flatMap Walk.final :=
  flatMap_eq_of_advance Walk.final_step h

/-- Walks that are at their ends have come to what has come out of them. -/
theorem gather_of_step_eq_none {ws : List Walk} (h : ∀ w ∈ ws, w.step = none) :
    gather ws = ws.flatMap Walk.final := by
  induction ws with
  | nil => rfl
  | cons w ws ih =>
    rw [List.flatMap_cons, Walk.final_of_step_eq_none (h w (List.mem_cons_self ..)),
      ← ih fun v hv => h v (List.mem_cons_of_mem _ hv)]
    rfl

/-- One of the walks can be taken to its end while the others wait. -/
theorem advance_run (before after : List Walk) (w : Walk) :
    Relation.ReflTransGen Advance (before ++ w :: after) (before ++ w.run :: after) := by
  fun_induction Walk.run w with
  | case1 w w' h ih => exact ih.head (.step before after h)
  | case2 w h => exact .refl

/-- So all of them can, each after the one before it. -/
theorem advance_map_run (before ws : List Walk) :
    Relation.ReflTransGen Advance (before ++ ws) (before ++ ws.map Walk.run) := by
  induction ws generalizing before with
  | nil => exact .refl
  | cons w ws ih =>
    have h := ih (before ++ [w.run])
    rw [List.append_assoc, List.append_assoc] at h
    exact (advance_run before ws w).trans h

/-- **The order of the steps does not matter**: walks side by side end with what they come
to, and with nothing else. -/
theorem ends_iff (ws : List Walk) (ns : List Node) : Ends ws ns ↔ ns = ws.flatMap Walk.final := by
  constructor
  · rintro ⟨ws', h, hend, rfl⟩
    rw [gather_of_step_eq_none hend, flatMap_final_of_advance h]
  · rintro rfl
    have hend : ∀ w ∈ ws.map Walk.run, w.step = none := by
      intro w hw
      obtain ⟨v, -, rfl⟩ := List.mem_map.1 hw
      exact v.step_run
    have hrun : Relation.ReflTransGen Advance ws (ws.map Walk.run) := advance_map_run [] ws
    refine ⟨ws.map Walk.run, hrun, hend, ?_⟩
    rw [gather_of_step_eq_none hend, flatMap_final_of_advance hrun]

theorem flatMap_final_start (ns : List Node) :
    ((ns.map fun n => Walk.start .trim [n]).flatMap Walk.final) = trimmedAll ns := by
  rw [← flatMap_trimmedAll_singleton, List.flatMap_map]
  rfl

/-! ### Passes -/

/-- The tree that trimming makes of a tree. -/
theorem result_tree (t : Tree) : (tree t).result = { t with roots := trimmedAll t.roots } := by
  simp only [tree, replaceRoots, result_nodes]

theorem result_run_pass (p : Pass) (t : Tree) :
    (p.run t).result = if p = .unless true then t else (tree t).result := by
  cases p with
  | whole => rfl
  | sideBySide =>
    rw [if_neg (by simp), result_tree]
    simp only [Pass.run, treeSideBySide, replaceRoots, result_sideBySide]
  | «unless» preserve => cases preserve <;> rfl
  | allRoots =>
    rw [if_neg (by simp), result_tree]
    simp only [Pass.run, result_nodes]
  | eachRoot =>
    rw [if_neg (by simp), result_tree]
    simp only [Pass.run, result_oneByOne]

/-- Passes one after the other trim the tree as often as one of them does not skip it. -/
theorem foldl_run (ps : List Pass) (t : Tree) :
    ps.foldl (fun t p => (p.run t).result) t =
      (fun t => (tree t).result)^[ps.countP (· ≠ .unless true)] t := by
  induction ps generalizing t with
  | nil => rfl
  | cons p ps ih =>
    rw [List.foldl_cons, ih, result_run_pass]
    by_cases hp : p = .unless true
    · simp [hp]
    · simp [hp]

/-- **The passes agree**: every pass that does not skip the tree makes the same of it, a
walk over the roots side by side does so in whatever order its steps are taken, and what
comes of several passes depends on nothing but how many of them do not skip. -/
theorem passes_agree (t : Tree) (ps : List Pass) :
    (∀ p : Pass, (p.run t).result = if p = .unless true then t else (tree t).result) ∧
    (∀ ns, Ends (t.roots.map fun n => .start .trim [n]) ns ↔ ns = (tree t).result.roots) ∧
    ps.foldl (fun t p => (p.run t).result) t =
      (fun t => (tree t).result)^[ps.countP (· ≠ .unless true)] t := by
  refine ⟨fun p => result_run_pass p t, fun ns => ?_, foldl_run ps t⟩
  rw [ends_iff, flatMap_final_start, result_tree]

end Trim

end TemplateMarkup
