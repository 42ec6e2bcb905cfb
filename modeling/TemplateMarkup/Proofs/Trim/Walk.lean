import TemplateMarkup.Trim.Pass

/-!
# What a walk comes to

A walk keeps half-done levels on its stack and fills them in as elements are closed. What
all of it will come to can be said at every moment: the level it stands in is finished by
the rules of its mode, that closes the innermost element, which goes into the level
outside, and so on up to the roots (`Walk.final`). No step changes this.

## What is proved

* `Walk.step_cases` — the three things a step can do.
* `Walk.eq_run_of_step` — what no step of a walk changes, its run does not change.
* `Walk.final_step` — a step does not change what a walk comes to.
* `Walk.size_step_eq` and `Walk.step_eq_none_iff` — every step takes one off the size of a
  walk, and a walk stops when nothing is left of it.
* `Walk.after?_size` and `Walk.result_run` — so a walk stops after as many steps as its
  size says, and what has then come out of the roots is what it came to from the start.
-/

namespace TemplateMarkup

namespace Trim

/-! ### The rules of a mode -/

namespace Mode

/-- What the nodes of a level of this mode become. -/
def all : Mode → List Node → List Node
  | trim, ns => trimmedAll ns
  | keep, ns => ns

@[simp] theorem all_nil (m : Mode) : m.all [] = [] := by cases m <;> rfl

/-- An element stays, and its children are treated in the mode below it. -/
theorem all_element (m : Mode) (tag : Tag) (children ns : List Node) :
    m.all (.element tag children :: ns) =
      .element (m.tag tag) ((m.below tag).all children) :: m.all ns := by
  cases m with
  | keep => rfl
  | trim =>
    by_cases h : preserves tag <;>
      simp [all, trimmedAll, trimmed?, Mode.tag, below, h, Node.rebuild]

/-- Any other node is treated by itself. -/
theorem all_leaf (m : Mode) {n : Node} (hn : ∀ tag children, n ≠ .element tag children)
    (ns : List Node) : m.all (n :: ns) = (m.leaf? n).toList ++ m.all ns := by
  cases m with
  | keep => rfl
  | trim =>
    cases n with
    | element tag children => exact absurd rfl (hn tag children)
    | _ => rfl

end Mode

/-- What a level comes to: what is done of it, and behind that what the rest becomes. -/
def Level.final (l : Level) : List Node := l.result ++ l.mode.all l.todo

namespace Level

theorem final_of_todo_nil {l : Level} (h : l.todo = []) : l.final = l.result := by
  simp [final, h]

/-- What is done stays in front of what is still to do. -/
theorem final_push (l : Level) (n : Option Node) :
    (l.push n).final = l.result ++ (n.toList ++ l.mode.all l.todo) := by
  cases n <;> simp [final, result, push]

/-- Taking up a node that is not an element does not change what the level comes to. -/
theorem final_leaf {l : Level} {n : Node} {rest : List Node} (ht : l.todo = n :: rest)
    (hn : ∀ tag children, n ≠ .element tag children) :
    ({ l with todo := rest }.push (l.mode.leaf? n)).final = l.final := by
  rw [final_push, final, ht, Mode.all_leaf _ hn]
  rfl

/-- What a level comes to in which an element is next. -/
theorem final_element {l : Level} {tag : Tag} {children rest : List Node}
    (ht : l.todo = .element tag children :: rest) :
    l.final = l.result ++ .element (l.mode.tag tag) ((l.mode.below tag).all children) ::
      l.mode.all rest := by
  rw [final, ht, Mode.all_element]

end Level

namespace Walk

/-! ### What a step does -/

/-- A step opens an element, takes up another node, or closes the innermost element. -/
theorem step_cases {w w' : Walk} (h : w.step = some w') :
    (∃ tag children rest, w.level.todo = .element tag children :: rest ∧
      w' = w.enter tag children rest) ∨
    (∃ n rest, w.level.todo = n :: rest ∧ (∀ tag children, n ≠ .element tag children) ∧
      w' = w.visit n rest) ∨
    (∃ e stack, w.level.todo = [] ∧ w.stack = e :: stack ∧ w' = w.close e stack) := by
  unfold step at h
  split at h
  · rename_i tag children rest ht
    exact .inl ⟨tag, children, rest, ht, (Option.some.inj h).symm⟩
  · rename_i n rest hn ht
    exact .inr (.inl ⟨n, rest, ht, hn, (Option.some.inj h).symm⟩)
  · rename_i ht
    split at h
    · rename_i e stack hs
      exact .inr (.inr ⟨e, stack, ht, hs, (Option.some.inj h).symm⟩)
    · cases h

/-- A walk stops at the end of the roots, when no element is open. -/
theorem step_eq_none_iff {w : Walk} : w.step = none ↔ w.level.todo = [] ∧ w.stack = [] := by
  unfold step
  split
  · rename_i ht; simp [ht]
  · rename_i ht; simp [ht]
  · rename_i ht
    split <;> rename_i hs <;> simp [ht, hs]

/-! ### The number of steps -/

/-- Every step takes one off the size. -/
theorem size_step_eq {w w' : Walk} (h : w.step = some w') : w.size = w'.size + 1 := by
  obtain ⟨tag, children, rest, ht, rfl⟩ | ⟨n, rest, ht, hn, rfl⟩ | ⟨e, stack, ht, hs, rfl⟩ :=
    step_cases h
  · simp [size, enter, ht, stepsOfAll, stepsOf, stepsOfOpen]
    omega
  · have h1 : stepsOf n = 1 := by
      cases n with
      | element tag children => exact absurd rfl (hn tag children)
      | _ => rfl
    simp [size, visit, Level.push, ht, stepsOfAll, h1]
    omega
  · simp [size, close, Level.push, ht, hs, stepsOfAll, stepsOfOpen]
    omega

theorem size_eq_zero_of_step {w : Walk} (h : w.step = none) : w.size = 0 := by
  obtain ⟨ht, hs⟩ := step_eq_none_iff.1 h
  simp [size, ht, hs, stepsOfAll, stepsOfOpen]

/-- The walk `n` steps on, if there are so many to do. -/
def after? : Nat → Walk → Option Walk
  | 0, w => some w
  | n + 1, w => w.step.bind (after? n)

/-- `run` stops only where no step is left. -/
theorem step_run (w : Walk) : w.run.step = none := by
  fun_induction run w with
  | case1 w w' h ih => exact ih
  | case2 w h => exact h

/-- What no step changes, no run changes. -/
theorem eq_run_of_step {α : Type} {f : Walk → α}
    (hf : ∀ {w w' : Walk}, w.step = some w' → f w' = f w) (w : Walk) : f w.run = f w := by
  fun_induction run w with
  | case1 w w' h ih => rw [ih, hf h]
  | case2 w h => rfl

/-- A walk is run to its end in as many steps as its size says. -/
theorem after?_size (w : Walk) : w.after? w.size = some w.run := by
  fun_induction run w with
  | case1 w w' h ih => rw [size_step_eq h, after?, h, Option.bind_some, ih]
  | case2 w h => rw [size_eq_zero_of_step h, after?]

/-! ### What a walk comes to -/

/-- What the roots come to if the level inside the open elements comes to `ns`: each
element is closed around its level and takes its place in the level outside. -/
def closeAll (ns : List Node) : List OpenElement → List Node
  | [] => ns
  | e :: stack => closeAll (e.outer.push (some (.element e.tag ns))).final stack

/-- What a walk comes to. -/
def final (w : Walk) : List Node := closeAll w.level.final w.stack

/-- A step does not change what a walk comes to. If it opens an element, the level outside waits on
the stack, the element already taken out of it. -/
theorem final_step {w w' : Walk} (h : w.step = some w') : w'.final = w.final := by
  obtain ⟨tag, children, rest, ht, rfl⟩ | ⟨n, rest, ht, hn, rfl⟩ | ⟨e, stack, ht, hs, rfl⟩ :=
    step_cases h
  · rw [final, final, Level.final_element ht, enter, closeAll, Level.final_push]
    rfl
  · rw [final, final, ← Level.final_leaf ht hn]
    rfl
  · rw [final, final, hs, closeAll, Level.final_of_todo_nil ht]
    rfl

/-- At the end of a walk nothing is left to come. -/
theorem final_of_step_eq_none {w : Walk} (h : w.step = none) : w.final = w.level.result := by
  obtain ⟨ht, hs⟩ := step_eq_none_iff.1 h
  rw [final, hs, closeAll, Level.final_of_todo_nil ht]

/-- What has come out of the roots when a walk is at its end is what it came to from the
start. -/
theorem result_run (w : Walk) : w.run.level.result = w.final := by
  rw [← final_of_step_eq_none (step_run w)]
  exact eq_run_of_step final_step w

end Walk

/-! ### Walking a list of nodes -/

/-- The nodes of a level become what the rules of its mode say. -/
theorem Mode.result_walk (m : Mode) (ns : List Node) : (m.walk ns).result = m.all ns := by
  rw [Mode.walk, Walk.result_run]
  rfl

/-- The explicit stack and the recursion over the tree agree. -/
theorem result_nodes (ns : List Node) : (nodes ns).result = trimmedAll ns :=
  Mode.result_walk .trim ns

end Trim

end TemplateMarkup
