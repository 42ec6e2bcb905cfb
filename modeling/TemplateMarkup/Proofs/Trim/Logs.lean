import TemplateMarkup.Proofs.Trim.Reports

/-!
# What a pass logs

A log has all reports of a pass in the order in which they were made. Where the roots are trimmed
side by side, there are many orders: each task makes its reports in the order of its root, but
tasks take their steps whenever they can. The summary of a pass comes last in any case, since it is
made when all tasks are done.

## The model

`IsLog` says of a list of reports that it may be the log of an outcome: an interleaving of what the
tasks reported, and behind it what the run itself did. Whether these really are the logs is decided
by the walks. `Logged` lets walks side by side take their steps in any order, each putting down
what it reports, and `isLog_sideBySide_iff` finds the logs of a pass to be what they put down.

## What is proved

* `Interleaves.perm` — an interleaving has all entries of the lists, once each.
* `Logged.interleaves` and `exists_logged` — what walks side by side put down is an interleaving of
  what each of them has to report, and every interleaving is put down by some schedule.
* `debug_of_isLog` — of all reports in a log, only the summary is of the greater level.
* `passes_report` — the logs of every pass.
-/

namespace TemplateMarkup

namespace Trim

/-! ### Interleavings -/

/-- `Interleaves lists log`: the list `log` has the entries of all the lists, those of each list in
the order of the list. -/
inductive Interleaves {α : Type} : List (List α) → List α → Prop where
  /-- Nothing is left of any of the lists. -/
  | done {lists : List (List α)} : (∀ l ∈ lists, l = []) → Interleaves lists []
  /-- The next entry is the first one of any of the lists. -/
  | take (before after : List (List α)) {l log : List α} (a : α) :
      Interleaves (before ++ l :: after) log → Interleaves (before ++ (a :: l) :: after) (a :: log)

namespace Interleaves

variable {α : Type} {lists : List (List α)} {log : List α}

/-- An interleaving has all entries of the lists, once each. -/
theorem perm (h : Interleaves lists log) : log.Perm lists.flatten := by
  induction h with
  | done hnil => rw [List.flatten_eq_nil_iff.2 hnil]
  | take before after a _ ih =>
    simp only [List.flatten_append, List.flatten_cons, List.cons_append] at ih ⊢
    exact (ih.cons a).trans List.perm_middle.symm

/-- Entries may be taken from one list first. -/
theorem append {before after : List (List α)} {l : List α} (first : List α)
    (h : Interleaves (before ++ l :: after) log) :
    Interleaves (before ++ (first ++ l) :: after) (first ++ log) := by
  induction first with
  | nil => exact h
  | cons a first ih => exact ih.take before after a

theorem nil_cons (h : Interleaves lists log) : Interleaves ([] :: lists) log := by
  induction h with
  | done hnil => exact .done (List.forall_mem_cons.2 ⟨rfl, hnil⟩)
  | take before after a _ ih => exact ih.take ([] :: before) after a

end Interleaves

/-- The lists one behind the other are an interleaving of them. -/
theorem interleaves_flatten {α : Type} (lists : List (List α)) :
    Interleaves lists lists.flatten := by
  induction lists with
  | nil => exact .done (by simp)
  | cons l lists ih =>
    have h := @Interleaves.append α _ [] lists [] l ih.nil_cons
    rwa [List.append_nil] at h

/-! ### Logs of an outcome -/

/-- **Log**: what the tasks reported, interleaved, and then what the run itself did. -/
def Outcome.IsLog {α : Type} (o : Outcome α) (log : List Report) : Prop :=
  ∃ made, Interleaves o.tasks made ∧ log = made ++ o.reports

theorem Outcome.exists_isLog {α : Type} (o : Outcome α) : ∃ log, o.IsLog log :=
  ⟨_, _, interleaves_flatten o.tasks, rfl⟩

/-- A run without tasks has one log. -/
theorem Outcome.isLog_iff {α : Type} {o : Outcome α} (ho : o.tasks = []) {log : List Report} :
    o.IsLog log ↔ log = o.reports := by
  constructor
  · rintro ⟨made, h, rfl⟩
    rw [ho] at h
    rw [h.perm.eq_nil, List.nil_append]
  · rintro rfl
    exact ⟨[], ho ▸ .done (by simp), rfl⟩

/-! ### Walks side by side and what they put down -/

/-- `Logged ws log ws'`: the walks `ws` take steps, one of them at a time, until they are at `ws'`,
and the log has what the steps report, one behind the other. -/
inductive Logged : List Walk → List Report → List Walk → Prop where
  /-- No step is taken. -/
  | refl (ws : List Walk) : Logged ws [] ws
  /-- Any of the walks takes a step that is left to it, and puts down what it reports. -/
  | step (before after : List Walk) {w w' : Walk} {r : Option Report} {log : List Report}
      {ws : List Walk} : w.step = some w' → w'.reports = r.toList ++ w.reports →
      Logged (before ++ w' :: after) log ws → Logged (before ++ w :: after) (r.toList ++ log) ws

theorem Logged.trans {ws ws' ws'' : List Walk} {log log' : List Report} (h : Logged ws log ws')
    (h' : Logged ws' log' ws'') : Logged ws (log ++ log') ws'' := by
  induction h with
  | refl ws => exact h'
  | step before after hstep hmade _ ih =>
    rw [List.append_assoc]
    exact (ih h').step before after hstep hmade

theorem Logged.advance {ws ws' : List Walk} {log : List Report} (h : Logged ws log ws') :
    Relation.ReflTransGen Advance ws ws' := by
  induction h with
  | refl ws => exact .refl
  | step before after hstep _ _ ih => exact ih.head (.step before after hstep)

/-- **What walks side by side put down** until they are at their ends is an interleaving of what
each of them has to report. -/
theorem Logged.interleaves {ws ws' : List Walk} {log : List Report} (h : Logged ws log ws')
    (hend : ∀ w ∈ ws', w.step = none) : Interleaves (ws.map Walk.toReport) log := by
  induction h with
  | refl ws =>
    apply Interleaves.done
    intro l hl
    obtain ⟨w, hw, rfl⟩ := List.mem_map.1 hl
    exact Walk.toReport_of_step_eq_none (hend w hw)
  | step before after hstep hmade _ ih =>
    obtain ⟨r', hmade', hnext⟩ := Walk.toReport_step hstep
    have hsame := List.append_cancel_right (hmade.symm.trans hmade')
    have hrest := ih hend
    rw [List.map_append, List.map_cons] at hrest ⊢
    rw [hnext, hsame]
    exact hrest.append r'.toList

/-! ### Every interleaving has its schedule -/

/-- A walk that has nothing more to report goes to its end without a word. -/
theorem logged_run_of_toReport_eq_nil (before after : List Walk) {w : Walk}
    (h : w.toReport = []) : Logged (before ++ w :: after) [] (before ++ w.run :: after) := by
  fun_induction Walk.run w with
  | case1 w w' hstep ih =>
    obtain ⟨r, hmade, hnext⟩ := Walk.toReport_step hstep
    rw [h] at hnext
    obtain ⟨hr, hrest⟩ := List.append_eq_nil_iff.1 hnext.symm
    have hlog := (ih hrest).step before after hstep hmade
    rwa [hr] at hlog
  | case2 w hstep => exact .refl _

theorem logged_map_run_of_toReport_eq_nil (before : List Walk) {ws : List Walk}
    (h : ∀ w ∈ ws, w.toReport = []) : Logged (before ++ ws) [] (before ++ ws.map Walk.run) := by
  induction ws generalizing before with
  | nil => exact .refl _
  | cons w ws ih =>
    obtain ⟨hw, hws⟩ := List.forall_mem_cons.1 h
    have hrest := ih (before ++ [w.run]) hws
    rw [List.append_assoc, List.append_assoc] at hrest
    exact (logged_run_of_toReport_eq_nil before ws hw).trans hrest

/-- A walk goes on to its next report while the others wait. -/
theorem exists_logged_next {w : Walk} {r : Report} {rs : List Report} (h : w.toReport = r :: rs) :
    ∃ w' : Walk, w'.toReport = rs ∧
      ∀ before after, Logged (before ++ w :: after) [r] (before ++ w' :: after) := by
  fun_induction Walk.run w with
  | case1 w w' hstep ih =>
    obtain ⟨made, hmade, hnext⟩ := Walk.toReport_step hstep
    rw [h] at hnext
    cases made with
    | none =>
      obtain ⟨w'', hrest, hlog⟩ := ih hnext.symm
      exact ⟨w'', hrest, fun before after => (hlog before after).step before after hstep hmade⟩
    | some r' =>
      obtain ⟨rfl, rfl⟩ := List.cons.inj hnext
      exact ⟨w', rfl, fun before after => (Logged.refl _).step before after hstep hmade⟩
  | case2 w hstep =>
    rw [Walk.toReport_of_step_eq_none hstep] at h
    cases h

/-- **Every interleaving is put down** when the walks take their steps in some order. -/
theorem exists_logged {ws : List Walk} {log : List Report}
    (h : Interleaves (ws.map Walk.toReport) log) :
    ∃ ws', Logged ws log ws' ∧ ∀ w ∈ ws', w.step = none := by
  generalize hlists : ws.map Walk.toReport = lists at h
  induction h generalizing ws with
  | done hnil =>
    subst hlists
    have hws : ∀ w ∈ ws, w.toReport = [] := fun w hw => hnil _ (List.mem_map_of_mem hw)
    refine ⟨ws.map Walk.run, logged_map_run_of_toReport_eq_nil [] hws, fun w hw => ?_⟩
    obtain ⟨v, -, rfl⟩ := List.mem_map.1 hw
    exact v.step_run
  | take before after r _ ih =>
    obtain ⟨us, vs, rfl, rfl, hvs⟩ := List.map_eq_append_iff.1 hlists
    obtain ⟨w, vs, rfl, hw, rfl⟩ := List.map_eq_cons_iff.1 hvs
    obtain ⟨w', hw', hnext⟩ := exists_logged_next hw
    obtain ⟨ws', hlog, hend⟩ := @ih (us ++ w' :: vs) (by rw [List.map_append, List.map_cons, hw'])
    exact ⟨ws', (hnext us vs).trans hlog, hend⟩

/-! ### Logs of the passes -/

/-- The walks that trim the roots of a tree side by side, before they begin. -/
def starts (t : Tree) : List Walk := t.roots.map fun n => .start .trim [n]

theorem tasks_sideBySide (t : Tree) :
    (Pass.sideBySide.run t).tasks = (starts t).map Walk.toReport := by
  rw [tasks_run_pass, if_pos rfl, starts, List.map_map]
  exact List.map_congr_left fun n _ => (Walk.toReport_start .trim [n]).symm

/-- What comes out of the walks at their ends are the roots of the pass. -/
theorem gather_of_logged {t : Tree} {ws : List Walk} {log : List Report}
    (h : Logged (starts t) log ws) (hend : ∀ w ∈ ws, w.step = none) :
    gather ws = (Pass.sideBySide.run t).result.roots := by
  rw [gather_of_step_eq_none hend, flatMap_final_of_advance h.advance, starts,
    flatMap_final_start, result_run_pass, if_neg (by simp), result_tree]

/-- **The logs of a pass side by side** are what its walks put down in some order, and behind that
the summary. -/
theorem isLog_sideBySide_iff {t : Tree} {log : List Report} :
    (Pass.sideBySide.run t).IsLog log ↔
      ∃ made ws, Logged (starts t) made ws ∧ (∀ w ∈ ws, w.step = none) ∧
        gather ws = (Pass.sideBySide.run t).result.roots ∧
        log = made ++ (Pass.sideBySide.run t).reports := by
  rw [Outcome.IsLog, tasks_sideBySide]
  constructor
  · rintro ⟨made, h, hlog⟩
    obtain ⟨ws, hmade, hend⟩ := exists_logged h
    exact ⟨made, ws, hmade, hend, gather_of_logged hmade hend, hlog⟩
  · rintro ⟨made, ws, hmade, hend, -, hlog⟩
    exact ⟨made, hmade.interleaves hend, hlog⟩

/-- The reports of all tasks together are what is announced, if there are any tasks. -/
theorem perm_of_interleaves_tasks {p : Pass} {t : Tree} {made : List Report}
    (h : Interleaves (p.run t).tasks made) :
    made.Perm (if p = .sideBySide then announced t.roots else []) := by
  have hperm := h.perm
  rw [tasks_run_pass] at hperm
  split
  · rename_i hp
    rwa [if_pos hp, ← List.flatMap_def, ← announced_eq_flatMap] at hperm
  · rename_i hp
    rwa [if_neg hp] at hperm

/-- What a pass says at the end of a log, if anything. -/
def Pass.summary : Pass → Counts → List Report
  | .whole, counts | .unless false, counts => [.trimmed counts]
  | .sideBySide, counts => [.trimmedSideBySide counts]
  | .unless true, _ | .allRoots, _ | .eachRoot, _ => []

/-- What is announced is of the lesser level. -/
theorem filter_debug_announced (ns : List Node) :
    (announced ns).filter (·.level = .debug) = [] :=
  List.filter_eq_nil_iff.2 fun r hr => by simp [(level_of_mem_announced hr).1]

theorem filter_debug_of_interleaves_tasks {p : Pass} {t : Tree} {made : List Report}
    (h : Interleaves (p.run t).tasks made) : made.filter (·.level = .debug) = [] := by
  have hperm := (perm_of_interleaves_tasks h).filter (·.level = .debug)
  split at hperm
  · rw [filter_debug_announced] at hperm
    exact hperm.eq_nil
  · exact hperm.eq_nil

/-- **Of the reports in a log, the summary alone** is of the greater level. -/
theorem debug_of_isLog {p : Pass} {t : Tree} {log : List Report} (h : (p.run t).IsLog log) :
    log.filter (·.level = .debug) =
      p.summary ⟨t.roots.length, (tree t).result.roots.length, t.errors.length⟩ := by
  have hannounced := filter_debug_announced t.roots
  obtain ⟨made, hmade, rfl⟩ := h
  rw [List.filter_append, filter_debug_of_interleaves_tasks hmade, List.nil_append,
    reports_run_pass, result_tree]
  rcases p with _ | _ | (_ | _) | _ | _
  · rw [List.filter_append, hannounced]
    rfl
  · rfl
  · rw [List.filter_append, hannounced]
    rfl
  · rfl
  · exact hannounced
  · exact hannounced

/-- A pass that has no tasks logs what it reports itself. -/
theorem isLog_iff_of_ne_sideBySide {p : Pass} (hp : p ≠ .sideBySide) (t : Tree)
    (log : List Report) : (p.run t).IsLog log ↔ log = (p.run t).reports :=
  Outcome.isLog_iff (by rw [tasks_run_pass, if_neg hp])

/-- **What the passes log**: a pass that walks the roots, together or one by one, reports the
elements that keep their content, the outermost of them alone, once each, as they follow in the
source. A pass that is asked for a tree says behind that how many roots there were and how many
there are; a pass that skips the tree says so and no more. Side by side, the same elements are
reported, in any order in which the walks over the roots can take their steps, and the summary comes
last. Whatever the order, the summary is the one report of the greater level, if there is one. -/
theorem passes_report (t : Tree) :
    let counts : Counts := ⟨t.roots.length, (tree t).result.roots.length, t.errors.length⟩
    (∀ log, (Pass.whole.run t).IsLog log ↔ log = announced t.roots ++ [.trimmed counts]) ∧
    (∀ log, ((Pass.unless false).run t).IsLog log ↔ log = announced t.roots ++ [.trimmed counts]) ∧
    (∀ log, (Pass.allRoots.run t).IsLog log ↔ log = announced t.roots) ∧
    (∀ log, (Pass.eachRoot.run t).IsLog log ↔ log = announced t.roots) ∧
    (∀ log, ((Pass.unless true).run t).IsLog log ↔ log = [.skipped]) ∧
    (∀ log, (Pass.sideBySide.run t).IsLog log ↔
      ∃ made ws, Logged (starts t) made ws ∧ (∀ w ∈ ws, w.step = none) ∧
        gather ws = (Pass.sideBySide.run t).result.roots ∧ made.Perm (announced t.roots) ∧
        log = made ++ [.trimmedSideBySide counts]) ∧
    (∀ p : Pass, (∃ log, (p.run t).IsLog log) ∧
      ∀ log, (p.run t).IsLog log → log.filter (·.level = .debug) = p.summary counts) ∧
    (∀ r ∈ announced t.roots,
      r.level = .trace ∧ r.message = "preserving whitespace in element subtree") ∧
    (Report.skipped.level = .trace ∧
      Report.skipped.message = "preserveWhitespaces is on, skipping whitespace removal") ∧
    ((Report.trimmed counts).level = .debug ∧
      (Report.trimmed counts).message = "removed template whitespace") ∧
    ((Report.trimmedSideBySide counts).level = .debug ∧
      (Report.trimmedSideBySide counts).message = "removed template whitespace in parallel") ∧
    ReportLevel.trace.name = "TRACE" ∧ ReportLevel.debug.name = "DEBUG" := by
  intro counts
  have hwhole : (Pass.whole.run t).reports = announced t.roots ++ [.trimmed counts] := by
    rw [reports_run_pass]
    simp only [counts, result_tree]
  have hside : (Pass.sideBySide.run t).reports = [.trimmedSideBySide counts] := by
    rw [reports_run_pass]
    simp only [counts, result_tree]
  refine ⟨fun log => ?_, fun log => ?_, fun log => ?_, fun log => ?_, fun log => ?_, fun log => ?_,
    fun p => ⟨Outcome.exists_isLog _, fun log => debug_of_isLog⟩,
    fun r => level_of_mem_announced, ⟨rfl, rfl⟩, ⟨rfl, rfl⟩, ⟨rfl, rfl⟩, rfl, rfl⟩
  · rw [isLog_iff_of_ne_sideBySide (by simp), hwhole]
  · rw [isLog_iff_of_ne_sideBySide (by simp), ← hwhole]
    rfl
  · rw [isLog_iff_of_ne_sideBySide (by simp), reports_run_pass]
  · rw [isLog_iff_of_ne_sideBySide (by simp), reports_run_pass]
  · rw [isLog_iff_of_ne_sideBySide (by simp), reports_run_pass]
  · rw [isLog_sideBySide_iff, hside]
    constructor
    · rintro ⟨made, ws, hmade, hend, hroots, hlog⟩
      have hall := hmade.interleaves hend
      rw [← tasks_sideBySide] at hall
      exact ⟨made, ws, hmade, hend, hroots, perm_of_interleaves_tasks hall, hlog⟩
    · rintro ⟨made, ws, hmade, hend, hroots, -, hlog⟩
      exact ⟨made, ws, hmade, hend, hroots, hlog⟩

end Trim

end TemplateMarkup
