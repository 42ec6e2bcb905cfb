import TemplateMarkup.Proofs.Trim.Passes
import Mathlib.Order.Fin.Basic

/-!
# What trimming leaves alone

A trimmed tree still has the shape it had. In every level some nodes may be missing, of a
kind that may go, and each of the others has a counterpart in its place, which differs
from it in little.

## What is proved

* `Aligned.exists_strictMono` — how two levels are aligned, told by positions: the nodes of
  the second come from different nodes of the first, in the same order, and a node of the
  first from which none comes is one that may go.
* `mayGo_of_trimmed?` and `counterpart_of_trimmed?` — only a node that may go goes, and what
  becomes of any other is a counterpart of it.
* `tree_frame` — the roots of a tree are aligned with those of the trimmed tree, and its
  problems are what they were.
-/

namespace TemplateMarkup

namespace Trim

/-! ### Aligned levels -/

/-- A node that may go. -/
inductive MayGo : Node → Prop where
  /-- A blank text. -/
  | text {t : Text} : Layout.isBlank t.value = true → MayGo (.text t)
  /-- The marker, where it stands as a node of its own. -/
  | attr {a : Attribute} : a.name = marker → MayGo (.attr a)

/-- `Aligned R ns ms`: the nodes `ms` are the nodes `ns` less some that may go, and with each
of the others replaced by one to which `R` relates it. -/
inductive Aligned (R : Node → Node → Prop) : List Node → List Node → Prop where
  /-- Where the one level ends, the other does. -/
  | nil : Aligned R [] []
  /-- The next node goes. -/
  | goes {n : Node} {ns ms : List Node} : MayGo n → Aligned R ns ms → Aligned R (n :: ns) ms
  /-- The next node is replaced. -/
  | stays {n m : Node} {ns ms : List Node} : R n m → Aligned R ns ms →
      Aligned R (n :: ns) (m :: ms)

/-- Positions in two lists, seen from lists that are longer by a first element each. -/
def consPositions {k l : ℕ} (f : Fin k → Fin l) : Fin (k + 1) → Fin (l + 1) :=
  Fin.cases 0 fun j => (f j).succ

theorem strictMono_consPositions {k l : ℕ} {f : Fin k → Fin l} (hf : StrictMono f) :
    StrictMono (consPositions f) := by
  intro i j hij
  cases j using Fin.cases with
  | zero => exact absurd hij (Fin.not_lt_zero i)
  | succ j =>
    cases i using Fin.cases with
    | zero => exact Fin.succ_pos (f j)
    | succ i => exact Fin.succ_lt_succ_iff.2 (hf (Fin.succ_lt_succ_iff.1 hij))

/-- An alignment by positions: `f j` is where the node at `j` comes from. From a node that
may not go comes exactly one. -/
theorem Aligned.exists_strictMono {R : Node → Node → Prop} {ns ms : List Node}
    (h : Aligned R ns ms) :
    ∃ f : Fin ms.length → Fin ns.length, StrictMono f ∧ (∀ j, R (ns.get (f j)) (ms.get j)) ∧
      ∀ i, MayGo (ns.get i) ∨ ∃! j, f j = i := by
  induction h with
  | nil => exact ⟨Fin.elim0, fun i => i.elim0, fun j => j.elim0, fun i => i.elim0⟩
  | goes hn _ ih =>
    obtain ⟨f, hf, hR, hi⟩ := ih
    refine ⟨fun j => (f j).succ, fun _ _ hij => Fin.succ_lt_succ_iff.2 (hf hij), hR, fun i => ?_⟩
    cases i using Fin.cases with
    | zero => exact .inl hn
    | succ i => simpa [Fin.succ_inj] using hi i
  | stays hnm _ ih =>
    obtain ⟨f, hf, hR, hi⟩ := ih
    have hg := strictMono_consPositions hf
    refine ⟨consPositions f, hg, fun j => ?_, fun i => ?_⟩
    · cases j using Fin.cases with
      | zero => exact hnm
      | succ j => exact hR j
    · cases i using Fin.cases with
      | zero => exact .inr ⟨0, rfl, fun j hj => hg.injective hj⟩
      | succ i =>
        obtain hgo | ⟨j, hj, -⟩ := hi i
        · exact .inl hgo
        · have hgj : consPositions f j.succ = i.succ := congrArg Fin.succ hj
          exact .inr ⟨j.succ, hgj, fun j' hj' => hg.injective (hj'.trans hgj.symm)⟩

/-- A level is aligned with what becomes of it, whatever relates its nodes to what becomes
of each. -/
theorem aligned_filterMap {R : Node → Node → Prop} {f : Node → Option Node} {ns : List Node}
    (hgo : ∀ n ∈ ns, f n = none → MayGo n) (hR : ∀ n ∈ ns, ∀ m, f n = some m → R n m) :
    Aligned R ns (ns.filterMap f) := by
  induction ns with
  | nil => exact .nil
  | cons n ns ih =>
    have hns := ih (fun n' hn' => hgo n' (List.mem_cons_of_mem _ hn'))
      fun n' hn' => hR n' (List.mem_cons_of_mem _ hn')
    cases hn : f n with
    | none =>
      rw [List.filterMap_cons_none hn]
      exact .goes (hgo n (List.mem_cons_self ..) hn) hns
    | some m =>
      rw [List.filterMap_cons_some hn]
      exact .stays (hR n (List.mem_cons_self ..) m hn) hns

/-! ### Counterparts -/

/-- `Counterpart n m`: the node `m` is what `n` may have become. -/
inductive Counterpart : Node → Node → Prop where
  /-- A text keeps its span and its notes. -/
  | text {t t' : Text} : t'.span = t.span → t'.i18n = t.i18n → Counterpart (.text t) (.text t')
  /-- An attribute that stands on its own is what it was. -/
  | attr (a : Attribute) : Counterpart (.attr a) (.attr a)
  /-- So is a comment. -/
  | comment (c : Comment) : Counterpart (.comment c) (.comment c)
  /-- So is an expansion, with all that is in it. -/
  | expansion (s : Switch) (cases : List ExpansionCase) :
      Counterpart (.expansion s cases) (.expansion s cases)
  /-- So is a case. -/
  | expansionCase (c : ExpansionCase) : Counterpart (.expansionCase c) (.expansionCase c)
  /-- An element whose content is left as it is has lost at most its marker. -/
  | kept {tag : Tag} {children : List Node} : KeepsContent tag →
      Counterpart (.element tag children) (.element { tag with attributes := unmarked tag } children)
  /-- So has any other element, and its children are aligned with those it had. -/
  | element {tag : Tag} {children children' : List Node} : ¬ KeepsContent tag →
      Aligned Counterpart children children' →
      Counterpart (.element tag children) (.element { tag with attributes := unmarked tag } children')

/-- Only a node that may go goes. -/
theorem mayGo_of_trimmed? {n : Node} (h : trimmed? n = none) : MayGo n := by
  cases n with
  | text t =>
    rw [trimmed?_text] at h
    split_ifs at h with hb
    exact .text hb
  | attr a =>
    rw [trimmed?_attr] at h
    split_ifs at h with ha
    exact .attr ha
  | _ => cases h

/-- What becomes of a node is a counterpart of it. -/
theorem counterpart_of_trimmed? {n m : Node} (h : trimmed? n = some m) : Counterpart n m := by
  induction n using Node.inductionOn generalizing m with
  | text t =>
    obtain ⟨v, -, rfl⟩ := trimmed?_text_eq_some_iff.1 h
    exact .text rfl rfl
  | attr a =>
    obtain ⟨-, rfl⟩ := trimmed?_attr_eq_some_iff.1 h
    exact .attr a
  | comment c => cases h; exact .comment c
  | expansion s cases' => cases h; exact .expansion s cases'
  | expansionCase c => cases h; exact .expansionCase c
  | element tag children ih =>
    by_cases hk : KeepsContent tag
    · rw [trimmed?_element_of_kept hk] at h
      cases h
      exact .kept hk
    · rw [trimmed?_element_of_not_kept hk] at h
      cases h
      rw [trimmedAll_eq_filterMap]
      exact .element hk (aligned_filterMap (fun _ _ => mayGo_of_trimmed?) fun n hn m => ih n hn)

/-! ### Trees -/

/-- **The frame of trimming**: the problems of a tree are passed on, and its roots are
aligned with those of the trimmed tree. In two aligned levels, the roots as much as the
children of an element and those of its counterpart, the second keeps the order of the
first and has nothing besides counterparts, exactly one of each node that may not go. -/
theorem tree_frame (t : Tree) :
    (tree t).result.errors = t.errors ∧ Aligned Counterpart t.roots (tree t).result.roots ∧
    ∀ ns ms, Aligned Counterpart ns ms →
      ∃ f : Fin ms.length → Fin ns.length, StrictMono f ∧
        (∀ j, Counterpart (ns.get (f j)) (ms.get j)) ∧ ∀ i, MayGo (ns.get i) ∨ ∃! j, f j = i := by
  rw [result_tree]
  refine ⟨rfl, ?_, fun ns ms h => h.exists_strictMono⟩
  rw [trimmedAll_eq_filterMap]
  exact aligned_filterMap (fun _ _ => mayGo_of_trimmed?) fun _ _ _ => counterpart_of_trimmed?

end Trim

end TemplateMarkup
