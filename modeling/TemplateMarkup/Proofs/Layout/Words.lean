import TemplateMarkup.Proofs.Layout.Collapse

/-!
# The words of a text

What a reader sees of a text are its words: the runs of characters that are neither layout nor
placeholders. Trimming a text loses no character of a word, and it neither puts two words
together nor takes one apart. This holds because a text can be trimmed in pieces, cut at any
character of a word.

## What is proved

* `fill_collapse_append_cons` — a text is trimmed piece by piece.
* `exists_gap_iff` — where something stood between two words something is left, and nothing
  comes between the characters of a word.
* `keepsWords_of_trim?` — a trimmed text has the words it had.
-/

namespace TemplateMarkup

namespace Layout

/-- Whether a character belongs to a word: it is neither layout nor the placeholder. -/
def isSolid (c : Char) : Bool := isContent c && decide (c ≠ placeholder)

theorem isSolid_iff {c : Char} : isSolid c = true ↔ isLayout c = false ∧ c ≠ placeholder := by
  simp [isSolid, isContent]

theorem isSolid_eq_false_iff {c : Char} :
    isSolid c = false ↔ isLayout c = true ∨ c = placeholder := by
  rw [← Bool.not_eq_true, isSolid_iff, not_and_or, Bool.not_eq_false, not_not]

/-! ### No character of a word is lost -/

/-- Neither a placeholder nor the space that it becomes belongs to a word. -/
theorem filter_isSolid_fillChars (cs : List Char) :
    (fillChars cs).filter isSolid = cs.filter isSolid := by
  induction cs with
  | nil => rfl
  | cons c cs ih =>
    have hcons : fillChars (c :: cs) = (if c = placeholder then space else c) :: fillChars cs := rfl
    rw [hcons]
    by_cases hc : c = placeholder
    · subst hc
      exact ih
    · rw [if_neg hc, List.filter_cons, List.filter_cons, ih]

theorem filter_isSolid_collapseChars (cs : List Char) :
    (collapseChars cs).filter isSolid = cs.filter isSolid := by
  have h : ∀ ds : List Char,
      ds.filter isSolid = (ds.filter isContent).filter fun c => decide (c ≠ placeholder) := by
    intro ds
    rw [List.filter_filter]
    exact List.filter_congr fun c _ => Bool.and_comm _ _
  rw [h, filter_isContent_collapseChars, ← h]

/-! ### Trimming in pieces -/

theorem collapseFrom_append_cons {a : Char} (ha : isLayout a = false) (p : Pending)
    (cs rest : List Char) :
    collapseFrom p (cs ++ a :: rest) = collapseFrom p cs ++ a :: collapseChars rest := by
  induction cs generalizing p with
  | nil => exact collapseFrom_content ha
  | cons c cs ih =>
    rw [List.cons_append]
    cases hc : isLayout c with
    | true => rw [collapseFrom_layout hc, collapseFrom_layout hc, ih]
    | false =>
      rw [collapseFrom_content hc, collapseFrom_content hc, ih, List.append_assoc, List.cons_append]

/-- A text can be cut at any character of a word, and trimmed piece by piece. -/
theorem fill_collapse_append_cons {a : Char} (ha : isSolid a = true) (cs rest : List Char) :
    collapseChars (fillChars (cs ++ a :: rest)) =
      collapseChars (fillChars cs) ++ a :: collapseChars (fillChars rest) := by
  obtain ⟨hlayout, hplace⟩ := isSolid_iff.1 ha
  have hfill : fillChars (cs ++ a :: rest) = fillChars cs ++ a :: fillChars rest := by
    simp [fillChars, hplace]
  rw [hfill]
  exact collapseFrom_append_cons hlayout .none _ _

/-! ### What stands between words -/

theorem Pending.any_isLayout_flush_push (p : Pending) {c : Char} (hc : isLayout c = true) :
    (p.push c).flush.any isLayout = true := by
  cases p <;> simp [Pending.push, Pending.flush, hc, isLayout_space]

/-- Where layout was, pending or ahead, layout is left. -/
theorem any_isLayout_collapseFrom (p : Pending) (cs : List Char) :
    (collapseFrom p cs).any isLayout = (p.flush.any isLayout || cs.any isLayout) := by
  induction cs generalizing p with
  | nil => simp
  | cons c cs ih =>
    cases hc : isLayout c with
    | true => rw [collapseFrom_layout hc, ih, p.any_isLayout_flush_push hc]; simp [hc]
    | false =>
      rw [collapseFrom_content hc, List.any_append, List.any_cons, List.any_cons, hc, ih]
      rfl

theorem any_isLayout_collapseChars (cs : List Char) :
    (collapseChars cs).any isLayout = cs.any isLayout :=
  any_isLayout_collapseFrom .none cs

theorem isLayout_fill (c : Char) :
    isLayout (if c = placeholder then space else c) = !isSolid c := by
  by_cases hc : c = placeholder
  · simp [hc, isLayout_space, isSolid]
  · simp [hc, isSolid, isContent]

/-- Something that belongs to no word is left of a piece of text exactly if there was
something of the kind. -/
theorem exists_gap_iff (cs : List Char) :
    (∃ c ∈ collapseChars (fillChars cs), isSolid c = false) ↔ ∃ c ∈ cs, isSolid c = false := by
  have hplace : placeholder ∉ collapseChars (fillChars cs) := by
    rw [mem_collapseChars_iff isLayout_placeholder]
    exact not_mem_fillChars cs
  have hout : (∃ c ∈ collapseChars (fillChars cs), isSolid c = false) ↔
      (collapseChars (fillChars cs)).any isLayout = true := by
    rw [List.any_eq_true]
    refine exists_congr fun c => and_congr_right fun hc => ?_
    have hne : c ≠ placeholder := fun e => hplace (e ▸ hc)
    rw [isSolid_eq_false_iff, or_iff_left hne]
  have hin : (fillChars cs).any isLayout = cs.any fun c => !isSolid c := by
    simp only [fillChars, List.any_map, Function.comp_def, isLayout_fill]
  rw [hout, any_isLayout_collapseChars, hin, List.any_eq_true]
  simp only [Bool.not_eq_true']

/-! ### Words -/

/-- **The words are kept**: both texts have the same characters of words, in the same order,
and two of them are in one word of the one text exactly if they are so in the other. That they
are the same two is told by the characters of words before, between and behind them. -/
structure KeepsWords (s s' : List Char) : Prop where
  /-- No character of a word is lost, and none is added. -/
  solid : s'.filter isSolid = s.filter isSolid
  /-- Two characters of words have something between them that belongs to no word exactly if
  they had. -/
  gaps : ∀ before a between b behind, s = before ++ a :: (between ++ b :: behind) →
    isSolid a = true → isSolid b = true →
    ∃ before' between' behind', s' = before' ++ a :: (between' ++ b :: behind') ∧
      before'.filter isSolid = before.filter isSolid ∧
      between'.filter isSolid = between.filter isSolid ∧
      behind'.filter isSolid = behind.filter isSolid ∧
      ((∃ c ∈ between', isSolid c = false) ↔ ∃ c ∈ between, isSolid c = false)

theorem KeepsWords.refl (s : List Char) : KeepsWords s s :=
  ⟨rfl, fun before _ between _ behind hs _ _ => ⟨before, between, behind, hs, rfl, rfl, rfl, .rfl⟩⟩

theorem filter_isSolid_fill_collapse (cs : List Char) :
    (collapseChars (fillChars cs)).filter isSolid = cs.filter isSolid := by
  rw [filter_isSolid_collapseChars, filter_isSolid_fillChars]

/-- A trimmed text has the words it had. -/
theorem keepsWords_of_trim? {s s' : String} (h : trim? s = some s') :
    KeepsWords s.toList s'.toList := by
  unfold trim? at h
  split at h
  · cases h
  · rw [← Option.some.inj h, toList_collapse, toList_fillPlaceholders]
    refine ⟨filter_isSolid_fill_collapse _, fun before a between b behind hs ha hb => ?_⟩
    refine ⟨collapseChars (fillChars before), collapseChars (fillChars between),
      collapseChars (fillChars behind), ?_, filter_isSolid_fill_collapse before,
      filter_isSolid_fill_collapse between, filter_isSolid_fill_collapse behind,
      exists_gap_iff between⟩
    rw [hs, fill_collapse_append_cons ha, fill_collapse_append_cons hb]

end Layout

end TemplateMarkup
