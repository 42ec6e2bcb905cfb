import TemplateMarkup.Trim.Report
import TemplateMarkup.Trim.Rules

/-!
# Trimming with an explicit stack

A template may be nested deeper than a recursion could follow it, so trees are walked
with a stack of the elements that are open, one step at a time.

## The model

The walk stands in one level of nodes, some of them done and some still to do, and keeps
for every open element the level it will return to. A step takes up the next node:
an element is opened, any other node is done at once, and at the end of a level the
element it belongs to is closed and becomes a done node of the level outside. Each step
makes `Walk.size` smaller, so a walk ends.

How a level is treated is its `Mode`. Below an element whose content is kept, nodes are
taken over as they are, and such an element is reported when it is opened.

## What is proved

* `Walk.size_step` — every step leaves fewer steps to do, which is why `Walk.run` ends.
-/

namespace TemplateMarkup

namespace Trim

/-- How the nodes of a level are treated. -/
inductive Mode where
  /-- They are trimmed. -/
  | trim
  /-- They are taken over as they are. -/
  | keep
  deriving DecidableEq

namespace Mode

/-- How the children of an element are treated that stands in a level of this mode. -/
def below : Mode → Tag → Mode
  | trim, tag => if preserves tag then keep else trim
  | keep, _ => keep

/-- What is reported when an element is opened in a level of this mode. -/
def reports : Mode → Tag → List Report
  | trim, tag => if preserves tag then [.kept tag.name] else []
  | keep, _ => []

/-- The tag of an element in a level of this mode. -/
def tag : Mode → Tag → Tag
  | trim, tag => { tag with attributes := attributes tag.attributes }
  | keep, tag => tag

/-- What becomes of a node that is not an element, in a level of this mode. -/
def leaf? : Mode → Node → Option Node
  | trim, n => Trim.leaf? n
  | keep, n => some n

end Mode

/-- A level of nodes that is being walked. -/
structure Level where
  /-- How its nodes are treated. -/
  mode : Mode
  /-- The nodes that are still to do. -/
  todo : List Node
  /-- The nodes that came out of those that are done, the last one first. -/
  done : List Node

namespace Level

/-- The level with one more done node, or with none if the node went. -/
def push (l : Level) (n : Option Node) : Level := { l with done := n.toList ++ l.done }

/-- What has come out of the level so far. -/
def result (l : Level) : List Node := l.done.reverse

end Level

/-- An element that has been opened and not closed yet. -/
structure OpenElement where
  /-- Its tag, as it will come out. -/
  tag : Tag
  /-- The level in which it stands. -/
  outer : Level

/-- A walk in progress. -/
structure Walk where
  /-- The level it stands in. -/
  level : Level
  /-- The elements that are open, the innermost first. -/
  stack : List OpenElement
  /-- What has been reported, the last report first. -/
  reports : List Report

namespace Walk

/-- A walk that is about to begin. -/
def start (mode : Mode) (nodes : List Node) : Walk := ⟨⟨mode, nodes, []⟩, [], []⟩

/-- Opens an element, behind which `rest` is still to do. -/
def enter (w : Walk) (tag : Tag) (children rest : List Node) : Walk where
  level := ⟨w.level.mode.below tag, children, []⟩
  stack := ⟨w.level.mode.tag tag, { w.level with todo := rest }⟩ :: w.stack
  reports := (w.level.mode.reports tag).reverse ++ w.reports

/-- Takes up a node that is not an element, behind which `rest` is still to do. -/
def visit (w : Walk) (n : Node) (rest : List Node) : Walk :=
  { w with level := { w.level with todo := rest }.push (w.level.mode.leaf? n) }

/-- Closes the element `e`, which stands in the elements `stack`. -/
def close (w : Walk) (e : OpenElement) (stack : List OpenElement) : Walk :=
  { w with
    level := e.outer.push (some (.element e.tag w.level.result))
    stack := stack }

/-- One step of a walk; `none` if it is finished. -/
def step (w : Walk) : Option Walk :=
  match w.level.todo with
  | .element tag children :: rest => some (w.enter tag children rest)
  | n :: rest => some (w.visit n rest)
  | [] =>
    match w.stack with
    | e :: stack => some (w.close e stack)
    | [] => none

mutual

/-- The number of steps a node takes: an element is opened and closed. -/
def stepsOf : Node → Nat
  | .element _ children => 2 + stepsOfAll children
  | _ => 1

/-- The number of steps that nodes take. -/
def stepsOfAll : List Node → Nat
  | [] => 0
  | n :: ns => stepsOf n + stepsOfAll ns

end

theorem stepsOf_pos (n : Node) : 0 < stepsOf n := by
  cases n <;> simp only [stepsOf] <;> omega

/-- The number of steps that open elements take: one to close each of them, and those of
the nodes still to do in the level outside. -/
def stepsOfOpen : List OpenElement → Nat
  | [] => 0
  | e :: stack => 1 + stepsOfAll e.outer.todo + stepsOfOpen stack

/-- The number of steps that are left. -/
def size (w : Walk) : Nat := stepsOfAll w.level.todo + stepsOfOpen w.stack

theorem size_enter {w : Walk} {tag : Tag} {children rest : List Node}
    (h : w.level.todo = .element tag children :: rest) :
    (w.enter tag children rest).size < w.size := by
  simp [size, enter, h, stepsOfAll, stepsOf, stepsOfOpen]
  omega

theorem size_visit {w : Walk} {n : Node} {rest : List Node} (h : w.level.todo = n :: rest) :
    (w.visit n rest).size < w.size := by
  have := stepsOf_pos n
  simp [size, visit, Level.push, h, stepsOfAll]
  omega

theorem size_close {w : Walk} {e : OpenElement} {stack : List OpenElement}
    (ht : w.level.todo = []) (hs : w.stack = e :: stack) : (w.close e stack).size < w.size := by
  simp [size, close, Level.push, ht, hs, stepsOfAll, stepsOfOpen]

/-- Every step leaves less to do. -/
theorem size_step {w w' : Walk} (h : w.step = some w') : w'.size < w.size := by
  unfold step at h
  split at h
  · rename_i ht
    rw [← Option.some.inj h]
    exact size_enter ht
  · rename_i ht
    rw [← Option.some.inj h]
    exact size_visit ht
  · rename_i ht
    split at h
    · rename_i hs
      rw [← Option.some.inj h]
      exact size_close ht hs
    · simp at h

/-- Walks to the end. -/
def run (w : Walk) : Walk :=
  match _h : w.step with
  | some w' => run w'
  | none => w
termination_by w.size
decreasing_by exact size_step _h

end Walk

end Trim

end TemplateMarkup
