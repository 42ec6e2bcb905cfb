import TemplateMarkup.Proofs.Json.Reading

/-!
# Every value can be passed over

What the grammar calls a value is passed over, however deep it is nested and whatever is in its
strings, and what stands behind it is left. Nothing in it can be taken for anything else: not a
bracket in a string, and not a member of an object further in.

## The model

A value that is being passed over stands inside the brackets of a stack, and what happens to it
is the same for every stack: from before the value, one comes to behind it
(`skipFrom_value`). For what stands in a bracket (`skipFrom_items`) the same is said from
behind its lead, so that one statement serves behind the opening bracket and behind a comma.
-/

namespace TemplateMarkup

namespace Json

/-! ### How values begin -/

/-- A character that a value may begin with. -/
def Opens (c : Char) : Prop := c ∈ ['n', 't', 'f', '"', '-', '[', '{'] ∨ c.isDigit = true

theorem Opens.not_blank {c : Char} (h : Opens c) : isBlank c = false := by
  rcases h with h | h
  · simp only [List.mem_cons, List.not_mem_nil, or_false] at h
    rcases h with rfl | rfl | rfl | rfl | rfl | rfl | rfl <;> decide
  · exact isBlank_eq_false_of_isDigit h

theorem Opens.ne_closer {c : Char} (h : Opens c) (b : Bracket) : c ≠ b.closer := by
  rintro rfl
  cases b with
  | square => exact absurd h (by rw [Opens]; decide)
  | curly => exact absurd h (by rw [Opens]; decide)

/-- A numeral begins with a minus sign or with a digit. -/
theorem IsNumeral.begins {s : List Char} (h : IsNumeral s) :
    ∃ c t, s = c :: t ∧ (c = '-' ∨ c.isDigit = true) := by
  obtain @⟨sign, whole, fraction, exponent, hsign, hwhole, -, -⟩ := h
  have signs : sign = [] ∨ sign = ['-'] := by simpa using hsign
  obtain rfl | rfl := signs
  · obtain ⟨nonempty, all⟩ := hwhole.isDigits
    cases whole with
    | nil => exact absurd rfl nonempty
    | cons c s => exact ⟨c, s ++ (fraction ++ exponent), rfl, .inr (all c (by simp))⟩
  · exact ⟨'-', whole ++ (fraction ++ exponent), rfl, .inl rfl⟩

/-- A value is not empty, and one can tell by its first character that it is one. -/
theorem IsValue.begins {v : List Char} (h : IsValue v) : ∃ c t, v = c :: t ∧ Opens c := by
  cases h with
  | word h =>
    have words : v = "null".toList ∨ v = "true".toList ∨ v = "false".toList := by simpa using h
    obtain rfl | rfl | rfl := words
    · exact ⟨'n', ['u', 'l', 'l'], rfl, .inl (by decide)⟩
    · exact ⟨'t', ['r', 'u', 'e'], rfl, .inl (by decide)⟩
    · exact ⟨'f', ['a', 'l', 's', 'e'], rfl, .inl (by decide)⟩
  | numeral h =>
    obtain ⟨c, t, rfl, first⟩ := h.begins
    refine ⟨c, t, rfl, first.imp ?_ id⟩
    rintro rfl
    decide
  | string _ => exact ⟨'"', _, rfl, .inl (by decide)⟩
  | @empty b => exact ⟨b.opener, _, rfl, .inl (by cases b <;> decide)⟩
  | @filled b => exact ⟨b.opener, _, rfl, .inl (by cases b <;> decide)⟩

/-! ### Values without brackets -/

/-- A value without brackets is passed over at once. -/
theorem skipFrom_scalar (stack : List Bracket) {before t rest : List Char} {c : Char}
    (hb : Blanks before) (hc : Opens c) (square : c ≠ '[') (curly : c ≠ '{')
    (skip : skipScalar (c :: t) = .ok rest) :
    skipFrom stack .before (before ++ c :: t) = skipFrom stack .after rest := by
  rw [skipFrom_before, dropBlanks_append_cons hb hc.not_blank]
  simp only [square, curly, if_false, skip, Except.bind]

theorem skipFrom_word {s : List Char} (h : s ∈ ["null".toList, "true".toList, "false".toList])
    (stack : List Bracket) {before : List Char} (hb : Blanks before) (rest : List Char) :
    skipFrom stack .before (before ++ (s ++ rest)) = skipFrom stack .after rest := by
  have words : s = "null".toList ∨ s = "true".toList ∨ s = "false".toList := by simpa using h
  obtain rfl | rfl | rfl := words
  · exact skipFrom_scalar stack hb (.inl (by decide)) (by decide) (by decide)
      (expect_append ['u', 'l', 'l'] rest)
  · exact skipFrom_scalar stack hb (.inl (by decide)) (by decide) (by decide)
      (expect_append ['r', 'u', 'e'] rest)
  · exact skipFrom_scalar stack hb (.inl (by decide)) (by decide) (by decide)
      (expect_append ['a', 'l', 's', 'e'] rest)

theorem skipFrom_string {s : List Char} (h : IsString s) (stack : List Bracket)
    {before : List Char} (hb : Blanks before) (rest : List Char) :
    skipFrom stack .before (before ++ (inQuotes s ++ rest)) = skipFrom stack .after rest := by
  have skip := skipQuoted_append h rest
  refine skipFrom_scalar stack hb (.inl (by decide)) (by decide) (by decide) ?_
  simpa [skipScalar] using skip

theorem skipFrom_numeral {s : List Char} (h : IsNumeral s) (stack : List Bracket)
    {before rest : List Char} (hb : Blanks before) (hr : Ends rest) :
    skipFrom stack .before (before ++ (s ++ rest)) = skipFrom stack .after rest := by
  obtain ⟨n, hn⟩ := scanNumeral_append .malformed h hr
  obtain ⟨c, t, rfl, first⟩ := h.begins
  have others : c ≠ 'n' ∧ c ≠ 't' ∧ c ≠ 'f' ∧ c ≠ '"' ∧ c ≠ '[' ∧ c ≠ '{' := by
    refine ⟨?_, ?_, ?_, ?_, ?_, ?_⟩ <;>
      · rintro rfl
        exact absurd first (by decide)
  obtain ⟨hn', ht, hf, quote, square, curly⟩ := others
  refine skipFrom_scalar stack hb ?_ square curly ?_
  · refine first.imp ?_ id
    rintro rfl
    decide
  · rw [List.cons_append] at hn
    simp [skipScalar, skipNumeral, hn', ht, hf, quote, first, hn, Except.map]

/-! ### Brackets -/

theorem Bracket.isBlank_closer (b : Bracket) : isBlank b.closer = false := by
  cases b <;> decide

theorem skipFrom_opener (b : Bracket) (stack : List Bracket) {before : List Char}
    (hb : Blanks before) (t : List Char) :
    skipFrom stack .before (before ++ b.opener :: t) = skipFrom (b :: stack) .opened t := by
  cases b with
  | square =>
    rw [skipFrom_before, Bracket.opener, dropBlanks_append_cons hb (by decide)]
    simp
  | curly =>
    rw [skipFrom_before, Bracket.opener, dropBlanks_append_cons hb (by decide)]
    simp

/-- A bracket with nothing in it is closed. -/
theorem skipFrom_opened_closer (b : Bracket) (outer : List Bracket) {blanks : List Char}
    (hb : Blanks blanks) (t : List Char) :
    skipFrom (b :: outer) .opened (blanks ++ b.closer :: t) = skipFrom outer .after t := by
  rw [skipFrom_opened, dropBlanks_append_cons hb b.isBlank_closer]
  simp

/-- A bracket is closed behind a value. -/
theorem skipFrom_after_closer (b : Bracket) (outer : List Bracket) {blanks : List Char}
    (hb : Blanks blanks) (t : List Char) :
    skipFrom (b :: outer) .after (blanks ++ b.closer :: t) = skipFrom outer .after t := by
  rw [skipFrom_after, dropBlanks_append_cons hb b.isBlank_closer]
  simp

/-- Behind a comma another value has to come. -/
theorem skipFrom_after_comma (b : Bracket) (outer : List Bracket) {blanks : List Char}
    (hb : Blanks blanks) (t : List Char) :
    skipFrom (b :: outer) .after (blanks ++ ',' :: t) =
      (b.skipLead t).bind (skipFrom (b :: outer) .before) := by
  have comma : ',' ≠ b.closer := by cases b <;> decide
  rw [skipFrom_after, dropBlanks_append_cons hb (by decide)]
  simp only [comma, if_true, if_false]

/-! ### What stands in front of a value in brackets -/

theorem skipName_append {blanks : List Char} (hb : Blanks blanks) (t : List Char) :
    skipName (blanks ++ '"' :: t) = (skipQuoted t).bind colon := by
  rw [skipName, dropBlanks_append_cons hb (by decide)]
  simp

/-- A lead is passed over up to blanks in front of the value. -/
theorem skipLead_append {b : Bracket} {lead : List Char} (h : IsLead b lead) :
    ∃ blanks, Blanks blanks ∧ ∀ s, b.skipLead (lead ++ s) = .ok (blanks ++ s) := by
  cases h with
  | element hb => exact ⟨lead, hb, fun s => rfl⟩
  | @name before n between behind hb hn hbetween hbehind =>
    refine ⟨behind, hbehind, fun s => ?_⟩
    have quoted := skipQuoted_append hn (between ++ ':' :: (behind ++ s))
    simp only [Bracket.skipLead, inQuotes, List.append_assoc, List.cons_append, List.nil_append,
      skipName_append hb, quoted, Except.bind, colon_append hbetween]

/-- Where something is in a bracket, it does not matter that the blanks in front of it have been
dropped. -/
theorem skipFrom_opened_lead {b : Bracket} (outer : List Bracket) {lead t : List Char} {c : Char}
    (h : IsLead b lead) (hc : Opens c) :
    skipFrom (b :: outer) .opened (lead ++ c :: t) =
      (b.skipLead (lead ++ c :: t)).bind (skipFrom (b :: outer) .before) := by
  cases h with
  | element hb =>
    have closer : c ≠ Bracket.square.closer := hc.ne_closer .square
    have start : dropBlanks (c :: t) = c :: t := dropBlanks_append_cons blanks_nil hc.not_blank t
    rw [skipFrom_opened, dropBlanks_append_cons hb hc.not_blank]
    simp only [closer, if_false, Bracket.skipLead, Except.bind]
    rw [skipFrom_before, skipFrom_before, dropBlanks_append_cons hb hc.not_blank, start]
  | @name before n between behind hb _ _ _ =>
    have closer : '"' ≠ Bracket.curly.closer := by decide
    have same (u : List Char) : skipName ('"' :: u) = skipName (before ++ '"' :: u) := by
      rw [skipName_append hb]
      exact skipName_append blanks_nil u
    simp only [inQuotes, List.append_assoc, List.cons_append, Bracket.skipLead]
    rw [skipFrom_opened, dropBlanks_append_cons hb (by decide)]
    simp only [closer, if_false, Bracket.skipLead, same]

/-- In a bracket with something in it a value begins behind the first lead. -/
theorem IsItems.begins {b : Bracket} {s : List Char} (h : IsItems b s) :
    ∃ lead c t, IsLead b lead ∧ Opens c ∧ s = lead ++ c :: t := by
  cases h with
  | @one _ lead v blanks hl hv _ =>
    obtain ⟨c, t, rfl, hc⟩ := hv.begins
    exact ⟨lead, c, t ++ blanks, hl, hc, rfl⟩
  | @more _ lead v blanks rest hl hv _ _ =>
    obtain ⟨c, t, rfl, hc⟩ := hv.begins
    exact ⟨lead, c, t ++ (blanks ++ ',' :: rest), hl, hc, rfl⟩

theorem skipFrom_opened_items {b : Bracket} {s : List Char} (h : IsItems b s)
    (outer : List Bracket) (rest : List Char) :
    skipFrom (b :: outer) .opened (s ++ rest) =
      (b.skipLead (s ++ rest)).bind (skipFrom (b :: outer) .before) := by
  obtain ⟨lead, c, t, hl, hc, rfl⟩ := h.begins
  rw [List.append_assoc, List.cons_append]
  exact skipFrom_opened_lead outer hl hc

/-! ### Values -/

theorem ends_closer (b : Bracket) (s : List Char) : Ends (b.closer :: s) := by
  cases b <;> exact (ahead_cons _ _ _).2 (by decide)

theorem ends_comma (s : List Char) : Ends (',' :: s) := (ahead_cons _ _ _).2 (by decide)

mutual

/-- **A value is passed over**, wherever it stands. -/
theorem skipFrom_value : ∀ {v : List Char}, IsValue v → ∀ (stack : List Bracket)
    {before rest : List Char}, Blanks before → Ends rest →
    skipFrom stack .before (before ++ (v ++ rest)) = skipFrom stack .after rest
  | _, .word h, stack, _, rest, hb, _ => skipFrom_word h stack hb rest
  | _, .numeral h, stack, _, _, hb, hr => skipFrom_numeral h stack hb hr
  | _, .string h, stack, _, rest, hb, _ => skipFrom_string h stack hb rest
  | _, .empty (b := b) hblanks, stack, before, rest, hb, _ => by
    rw [List.cons_append, List.cons_append, skipFrom_opener b stack hb, List.append_assoc]
    exact skipFrom_opened_closer b stack hblanks rest
  | _, .filled (b := b) h, stack, before, rest, hb, _ => by
    rw [List.cons_append, List.cons_append, skipFrom_opener b stack hb, List.append_assoc,
      skipFrom_opened_items h]
    exact skipFrom_items h stack rest

/-- What stands in a bracket is passed over together with the bracket, from behind its lead. -/
theorem skipFrom_items : ∀ {b : Bracket} {s : List Char}, IsItems b s →
    ∀ (outer : List Bracket) (rest : List Char),
    (b.skipLead (s ++ b.closer :: rest)).bind (skipFrom (b :: outer) .before) =
      skipFrom outer .after rest
  | b, _, .one hl hv hblanks, outer, rest => by
    obtain ⟨front, hfront, lead⟩ := skipLead_append hl
    have value := skipFrom_value hv (b :: outer) hfront
      (ends_append hblanks (ends_closer b rest))
    rw [List.append_assoc, lead, List.append_assoc, Except.bind, value]
    exact skipFrom_after_closer b outer hblanks rest
  | b, _, @IsItems.more _ _ _ _ s hl hv hblanks hs, outer, rest => by
    obtain ⟨front, hfront, lead⟩ := skipLead_append hl
    have value := skipFrom_value hv (b :: outer) hfront
      (ends_append hblanks (ends_comma (s ++ b.closer :: rest)))
    rw [List.append_assoc, lead, List.append_assoc, List.append_assoc, List.cons_append,
      Except.bind, value, skipFrom_after_comma b outer hblanks]
    exact skipFrom_items hs outer rest

end

/-- A value is passed over with the blanks in front of it, and nothing else is. -/
theorem skipValue_append {v before rest : List Char} (h : IsValue v) (hb : Blanks before)
    (hr : Ends rest) : skipValue (before ++ (v ++ rest)) = .ok rest := by
  rw [skipValue, skipFrom_value h [] hb hr, skipFrom_nil_after]

end Json

end TemplateMarkup
