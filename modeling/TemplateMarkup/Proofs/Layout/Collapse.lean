import TemplateMarkup.Layout
import Mathlib.Data.List.Chain

/-!
# Collapsed texts

What a text looks like when its layout has been collapsed and its placeholders have been
filled, and which texts look so already.

## What is proved

* `apart_collapseChars` and `collapseChars_eq_self_iff` — collapsing leaves no two layout
  characters next to each other, and changes nothing exactly if there are none.
* `filter_isContent_collapseChars` — it loses no content and adds none.
* `fillChars_eq_self_iff` and `not_mem_fillChars` — likewise for the placeholders.
* `isNormal_trim` and `trim?_eq_self_iff` — a trimmed text is in normal form; the texts that
  are trimmed to themselves are the ones in normal form that are not blank.
* `isBlank_trim_iff` — a trimmed text is blank exactly if nothing but placeholders kept
  the text from being blank before.
-/

namespace TemplateMarkup

namespace Layout

/-! ### No two layout characters together -/

/-- Whether a character is content. -/
def isContent (c : Char) : Bool := !isLayout c

/-- **Apart**: of two neighbours at least one is content. -/
def Apart (cs : List Char) : Prop := cs.IsChain fun a b => isLayout a = false ∨ isLayout b = false

theorem Apart.tail {c : Char} {cs : List Char} (h : Apart (c :: cs)) : Apart cs := List.IsChain.tail h

/-- Content may stand in front of anything. -/
theorem Apart.cons_content {c : Char} {cs : List Char} (hc : isLayout c = false) (h : Apart cs) :
    Apart (c :: cs) :=
  List.isChain_cons.2 ⟨fun _ _ => .inl hc, h⟩

/-- Anything may stand in front of content. -/
theorem Apart.cons_of_head {d c : Char} {cs : List Char} (hc : isLayout c = false)
    (h : Apart (c :: cs)) : Apart (d :: c :: cs) :=
  List.isChain_cons_cons.2 ⟨.inr hc, h⟩

/-- Behind a layout character comes content. -/
theorem Apart.isLayout_of_cons_cons {c d : Char} {cs : List Char} (h : Apart (c :: d :: cs))
    (hc : isLayout c = true) : isLayout d = false := by
  rcases (List.isChain_cons_cons.1 h).1 with hc' | hd
  · rw [hc] at hc'; cases hc'
  · exact hd

/-! ### Collapsing -/

/-- At most one character is written for a run. -/
theorem Pending.flush_cases (p : Pending) : p.flush = [] ∨ ∃ c, p.flush = [c] := by
  cases p with
  | none => exact .inl rfl
  | one c => exact .inr ⟨c, rfl⟩
  | many => exact .inr ⟨space, rfl⟩

theorem apart_collapseFrom (p : Pending) (cs : List Char) : Apart (collapseFrom p cs) := by
  induction cs generalizing p with
  | nil => obtain h | ⟨c, h⟩ := p.flush_cases <;> simp [h, Apart]
  | cons c cs ih =>
    cases hc : isLayout c with
    | true => rw [collapseFrom_layout hc]; exact ih _
    | false =>
      have h : Apart (c :: collapseFrom .none cs) := (ih .none).cons_content hc
      rw [collapseFrom_content hc]
      obtain hp | ⟨d, hp⟩ := p.flush_cases <;> rw [hp]
      · exact h
      · exact h.cons_of_head hc

/-- Collapsing leaves no two layout characters together. -/
theorem apart_collapseChars (cs : List Char) : Apart (collapseChars cs) := apart_collapseFrom .none cs

/-- A text whose layout characters are apart already is gone through without a change.
One layout character may be pending, as long as it does not touch another. -/
theorem collapseFrom_of_apart {cs : List Char} :
    (Apart cs → collapseFrom .none cs = cs) ∧
    (∀ a, isLayout a = true → Apart (a :: cs) → collapseFrom (.one a) cs = a :: cs) := by
  induction cs with
  | nil => exact ⟨fun _ => rfl, fun _ _ _ => rfl⟩
  | cons c cs ih =>
    refine ⟨fun h => ?_, fun a ha h => ?_⟩
    · cases hc : isLayout c with
      | true => rw [collapseFrom_layout hc]; exact ih.2 c hc h
      | false => rw [collapseFrom_content hc, ih.1 h.tail]; rfl
    · have hc := h.isLayout_of_cons_cons ha
      rw [collapseFrom_content hc, ih.1 h.tail.tail]
      rfl

/-- Collapsing changes nothing exactly if no two layout characters are together. -/
theorem collapseChars_eq_self_iff {cs : List Char} : collapseChars cs = cs ↔ Apart cs :=
  ⟨fun h => h ▸ apart_collapseChars cs, collapseFrom_of_apart.1⟩

/-- As long as only layout is pending, the content that comes out is what is ahead. -/
theorem filter_isContent_collapseFrom {p : Pending} (hp : p.flush.filter isContent = [])
    (cs : List Char) : (collapseFrom p cs).filter isContent = cs.filter isContent := by
  induction cs generalizing p with
  | nil => exact hp
  | cons c cs ih =>
    cases hc : isLayout c with
    | true =>
      have hpush : (p.push c).flush.filter isContent = [] := by
        cases p <;> simp [Pending.push, Pending.flush, isContent, hc, isLayout_space]
      rw [collapseFrom_layout hc, ih hpush]
      simp [isContent, hc]
    | false =>
      rw [collapseFrom_content hc, List.filter_append, hp, List.nil_append, List.filter_cons, ih rfl]
      simp [isContent, hc]

/-- Collapsing loses no content and adds none. -/
theorem filter_isContent_collapseChars (cs : List Char) :
    (collapseChars cs).filter isContent = cs.filter isContent :=
  filter_isContent_collapseFrom rfl cs

theorem mem_collapseChars_iff {c : Char} (hc : isLayout c = false) {cs : List Char} :
    c ∈ collapseChars cs ↔ c ∈ cs := by
  have h : ∀ ds : List Char, c ∈ ds ↔ c ∈ ds.filter isContent := by simp [isContent, hc]
  rw [h, filter_isContent_collapseChars, ← h]

theorem all_isLayout_collapseChars (cs : List Char) :
    (collapseChars cs).all isLayout = cs.all isLayout := by
  have h : ∀ ds : List Char, ds.all isLayout = (ds.filter isContent).isEmpty := by
    intro ds
    induction ds with
    | nil => rfl
    | cons d ds ih =>
      cases hd : isLayout d with
      | true => simpa [isContent, hd] using ih
      | false => simp [isContent, hd]
  rw [h, filter_isContent_collapseChars, ← h]

/-! ### Placeholders -/

theorem not_mem_fillChars (cs : List Char) : placeholder ∉ fillChars cs := by
  intro h
  obtain ⟨c, -, hc⟩ := List.mem_map.1 h
  split_ifs at hc with hp
  · exact absurd hc (by decide)
  · exact hp hc

theorem fillChars_eq_self_iff {cs : List Char} : fillChars cs = cs ↔ placeholder ∉ cs := by
  constructor
  · intro h
    rw [← h]
    exact not_mem_fillChars cs
  · intro h
    have hid : ∀ c ∈ cs, (if c = placeholder then space else c) = id c := by
      intro c hc
      have hne : c ≠ placeholder := fun e => h (e ▸ hc)
      exact if_neg hne
    exact (List.map_congr_left hid).trans cs.map_id

/-- A filled text is all layout if it was all layout and placeholders. -/
theorem all_isLayout_fillChars (cs : List Char) :
    (fillChars cs).all isLayout = true ↔ ∀ c ∈ cs, isLayout c = true ∨ c = placeholder := by
  simp only [fillChars, List.all_map, List.all_eq_true, Function.comp_apply]
  refine forall₂_congr fun c _ => ?_
  by_cases hc : c = placeholder
  · simp [hc, isLayout_space]
  · simp [hc]

/-! ### Trimmed texts -/

/-- The normal form of a text: no placeholders, and no two layout characters together. -/
structure IsNormal (s : String) : Prop where
  /-- No placeholder is left to fill. -/
  filled : placeholder ∉ s.toList
  /-- No layout is left to collapse. -/
  apart : Apart s.toList

/-- **Held by placeholders**: the text would be blank, were it not for its placeholders. -/
structure IsHeld (s : String) : Prop where
  /-- All of it is layout or placeholders. -/
  blank : ∀ c ∈ s.toList, isLayout c = true ∨ c = placeholder
  /-- There is a placeholder in it. -/
  held : placeholder ∈ s.toList

/-- A placeholder is content. -/
theorem IsHeld.isBlank_eq_false {s : String} (h : IsHeld s) : isBlank s = false := by
  rw [Bool.eq_false_iff]
  intro hb
  have hp := isBlank_iff.1 hb _ h.held
  rw [isLayout_placeholder] at hp
  cases hp

theorem isNormal_collapse_fillPlaceholders (s : String) :
    IsNormal (collapse (fillPlaceholders s)) where
  filled := by
    rw [toList_collapse, mem_collapseChars_iff isLayout_placeholder, toList_fillPlaceholders]
    exact not_mem_fillChars _
  apart := by
    rw [toList_collapse]
    exact apart_collapseChars _

/-- What has been trimmed is in normal form. -/
theorem isNormal_trim {s s' : String} (h : trim? s = some s') : IsNormal s' := by
  unfold trim? at h
  split_ifs at h
  rw [← Option.some.inj h]
  exact isNormal_collapse_fillPlaceholders s

theorem collapse_fillPlaceholders_eq_self_iff {s : String} :
    collapse (fillPlaceholders s) = s ↔ IsNormal s := by
  constructor
  · intro h
    exact h ▸ isNormal_collapse_fillPlaceholders s
  · intro h
    rw [← String.toList_inj, toList_collapse, toList_fillPlaceholders,
      fillChars_eq_self_iff.2 h.filled, collapseChars_eq_self_iff.2 h.apart]

/-- A text is trimmed to itself exactly if it is in normal form and not blank. -/
theorem trim?_eq_self_iff {s : String} : trim? s = some s ↔ isBlank s = false ∧ IsNormal s := by
  unfold trim?
  split_ifs with h
  · simp [h]
  · rw [Option.some.injEq, collapse_fillPlaceholders_eq_self_iff]
    simp [h]

/-- A text that has been trimmed is blank exactly if only placeholders held it: without one in it
the text would have been blank before. -/
theorem isBlank_trim_iff {s s' : String} (h : trim? s = some s') : isBlank s' = true ↔ IsHeld s := by
  unfold trim? at h
  split_ifs at h with hb
  have hs' : isBlank s' = (fillChars s.toList).all isLayout := by
    rw [← Option.some.inj h, isBlank, toList_collapse, all_isLayout_collapseChars,
      toList_fillPlaceholders]
  rw [hs', all_isLayout_fillChars]
  refine ⟨fun hall => ⟨hall, ?_⟩, fun hh => hh.blank⟩
  by_contra hp
  exact hb (isBlank_iff.2 fun c hc => (hall c hc).resolve_right fun e => hp (e ▸ hc))

/-- A text that has been trimmed stays as it is from then on, if not only placeholders held
it. -/
theorem trim?_trim_iff {s s' : String} (h : trim? s = some s') :
    trim? s' = some s' ↔ ¬ IsHeld s := by
  rw [trim?_eq_self_iff, ← isBlank_trim_iff h, Bool.not_eq_true]
  exact and_iff_left (isNormal_trim h)

/-! ### Texts held by placeholders -/

/-- Behind two layout characters nothing more is written for layout. -/
theorem collapseFrom_many_of_all {cs : List Char} (h : ∀ c ∈ cs, isLayout c = true) :
    collapseFrom .many cs = [space] := by
  induction cs with
  | nil => rfl
  | cons c cs ih =>
    obtain ⟨hc, hcs⟩ := List.forall_mem_cons.1 h
    rw [collapseFrom_layout hc]
    exact ih hcs

/-- Of a text that is all layout, and more than one character of it, one space is left. -/
theorem collapseChars_of_all {c d : Char} {cs : List Char}
    (h : ∀ e ∈ c :: d :: cs, isLayout e = true) : collapseChars (c :: d :: cs) = [space] := by
  obtain ⟨hc, hd, hcs⟩ : isLayout c = true ∧ isLayout d = true ∧ ∀ e ∈ cs, isLayout e = true := by
    simpa using h
  rw [collapseChars, collapseFrom_layout hc, collapseFrom_layout hd]
  exact collapseFrom_many_of_all hcs

/-- Of a text held by placeholders a single space is left. -/
theorem trim?_of_isHeld {s : String} (h : IsHeld s) : trim? s = some " " := by
  have hall : ∀ e ∈ fillChars s.toList, isLayout e = true :=
    List.all_eq_true.1 ((all_isLayout_fillChars s.toList).2 h.blank)
  have hchars : collapseChars (fillChars s.toList) = [space] := by
    have hheld := h.held
    rcases hcs : s.toList with _ | ⟨c, _ | ⟨d, cs⟩⟩ <;> rw [hcs] at hall hheld
    · exact absurd hheld List.not_mem_nil
    · rw [← List.mem_singleton.1 hheld]
      rfl
    · exact collapseChars_of_all hall
  have htrim : (collapse (fillPlaceholders s)).toList = " ".toList := by
    rw [toList_collapse, toList_fillPlaceholders, hchars]
    rfl
  rw [trim?, h.isBlank_eq_false, ← String.toList_inj.1 htrim]
  rfl

/-- A single space is left of the texts held by placeholders, and of no others. -/
theorem trim?_eq_space_iff {s : String} : trim? s = some " " ↔ IsHeld s := by
  refine ⟨fun h => (isBlank_trim_iff h).1 (by decide), trim?_of_isHeld⟩

/-- A trimmed text is blank only if it is a single space. -/
theorem eq_space_of_isBlank_trim {s s' : String} (h : trim? s = some s') (hb : isBlank s' = true) :
    s' = " " := by
  have hspace := trim?_of_isHeld ((isBlank_trim_iff h).1 hb)
  exact Option.some.inj (h.symm.trans hspace)

/-- A lone placeholder becomes a space, and nothing is left of that. -/
example : trim? "\ue500" = some " " ∧ trim? " " = none := by decide

end Layout

end TemplateMarkup
