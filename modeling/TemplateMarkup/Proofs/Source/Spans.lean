import TemplateMarkup.Proofs.Source.Context

/-!
# Spans between moved locations

A location is moved by characters, and a span covers the text between two byte counts. The two
agree: wherever a location says it is, the span from some characters back to some characters on
covers these characters, as far as the file reaches. So the text that is shown around a location
is the text that its moves mark off.

## What is proved

* `Location.at_moveBy` — a move leads from the place of a location to the place it says, whatever
  the offset of the location was.
* `text_of_at` — the text of a span between two places of a file.
* `text_moved` — the text between two moves of a location, one back and one on.
* `context_is_text` — the text shown around a location, on both sides and on each.
-/

namespace TemplateMarkup

namespace Source

/-! ### Places of moves -/

namespace Cursor

/-- No characters back and no characters on is the same place. -/
theorem moveBy_neg (k : Cursor) (n : Nat) : k.moveBy (-n) = k.retreat n := by
  cases n with
  | zero => simp [moveBy, advance, retreat]
  | succ n => rfl

end Cursor

/-- A move leads to a place of the file, even from an offset that is none. -/
theorem Location.at_moveBy (l : Location) (delta : Int) :
    (l.moveBy delta).At (l.cursor.moveBy delta) := by
  refine ⟨?_, ?_⟩
  · rw [file_moveBy, Cursor.content_moveBy, cursor, Cursor.content_seek]
  · cases delta <;> rfl

/-! ### The text between two places -/

namespace Span

/-- The text of a span is the part of the content that its offsets mark off. -/
theorem text_of_cut {s : Span} {before part after : List Char}
    (hcontent : s.start.file.content.toList = before ++ part ++ after)
    (hstart : s.start.offset = byteLength before)
    (hstop : s.stop.offset = byteLength (before ++ part)) : s.text = String.ofList part := by
  rw [text, hcontent, hstart, hstop, slice?_append, Option.getD_some]

/-- The text of a span between two places of a file is what stands between them. -/
theorem text_of_at {s : Span} {before part after : List Char}
    (hstart : s.start.At ⟨before.reverse, part ++ after⟩)
    (hstop : s.stop.At ⟨part.reverse ++ before.reverse, after⟩) : s.text = String.ofList part := by
  refine @text_of_cut s before part after ?_ ?_ ?_
  · rw [hstart.content, Cursor.content, List.reverse_reverse, List.append_assoc]
  · rw [hstart.offset, Cursor.offset, byteLength_reverse]
  · rw [hstop.offset, Cursor.offset, ← List.reverse_append, byteLength_reverse]

/-- **The text between two moves**, one back and one on, is that of the characters they go over. -/
theorem text_moved (l : Location) (m n : Nat) (details : Option String) :
    (Span.mk (l.moveBy (-m)) (l.moveBy n) details).text =
      String.ofList ((l.cursor.behind.take m).reverse ++ l.cursor.ahead.take n) := by
  have hback : l.cursor.moveBy (-m) = ⟨(l.cursor.behind.drop m).reverse.reverse,
      ((l.cursor.behind.take m).reverse ++ l.cursor.ahead.take n) ++ l.cursor.ahead.drop n⟩ := by
    rw [Cursor.moveBy_neg, Cursor.retreat, List.reverse_reverse, List.append_assoc,
      List.take_append_drop]
  have hon : l.cursor.moveBy n = ⟨((l.cursor.behind.take m).reverse ++ l.cursor.ahead.take n).reverse ++
      (l.cursor.behind.drop m).reverse.reverse, l.cursor.ahead.drop n⟩ := by
    rw [List.reverse_append, List.reverse_reverse, List.reverse_reverse, List.append_assoc,
      List.take_append_drop]
    rfl
  exact text_of_at (hback ▸ l.at_moveBy (-m)) (hon ▸ l.at_moveBy n)

end Span

/-! ### The text around a location -/

theorem take_length_excerpt (chars lines : Nat) (text : List Char) :
    text.take (Location.excerpt chars lines text).length = Location.excerpt chars lines text :=
  (List.prefix_iff_eq_take.1 (Location.longest_excerpt chars lines text).1.starts).symm

/-- **The text shown around a location is the text that its moves mark off**: as many characters
back and on as are shown, the span covers what is shown on both sides, and the spans to where the
location stands and from there cover what is shown on each. -/
theorem context_is_text {l : Location} {chars lines : Nat} {before after : String}
    (h : l.context? chars lines = some (before, after)) :
    (Span.mk (l.moveBy (-before.length)) (l.moveBy after.length) none).text = before ++ after ∧
    (Span.mk (l.moveBy (-before.length)) (l.moveBy 0) none).text = before ∧
    (Span.mk (l.moveBy 0) (l.moveBy after.length) none).text = after := by
  unfold Location.context? at h
  split_ifs at h
  cases h
  have hback := take_length_excerpt chars lines l.cursor.behind
  have hon := take_length_excerpt chars lines l.cursor.ahead
  rw [String.length_ofList, String.length_ofList, List.length_reverse, ← String.ofList_append]
  refine ⟨?_, ?_, ?_⟩
  · rw [Span.text_moved, hback, hon]
  · have htext := Span.text_moved l (Location.excerpt chars lines l.cursor.behind).length 0 none
    rw [hback, List.take_zero, List.append_nil] at htext
    exact htext
  · have htext := Span.text_moved l 0 (Location.excerpt chars lines l.cursor.ahead).length none
    rw [hon, List.take_zero, List.reverse_nil, List.nil_append] at htext
    exact htext

/-- From inside a character of three bytes, in a file of two lines. -/
theorem context_is_text_inside_character :
    let l : Location := ⟨⟨"é\n€x", ""⟩, 4, 1, 0⟩
    l.context? 2 1 = some ("\n", "€x") ∧
      (Span.mk (l.moveBy (-1)) (l.moveBy 2) none).text = "\n€x" ∧
      (Span.mk (l.moveBy (-1)) (l.moveBy 0) none).text = "\n" ∧
      (Span.mk (l.moveBy 0) (l.moveBy 2) none).text = "€x" := by
  intro l
  have hshown : l.context? 2 1 = some ("\n", "€x") := by decide
  have htext := context_is_text hshown
  have hbefore : "\n".length = 1 := by decide
  have hafter : "€x".length = 2 := by decide
  have hboth : "\n" ++ "€x" = "\n€x" := by decide
  rw [hbefore, hafter, hboth] at htext
  exact ⟨hshown, htext⟩

end Source

end TemplateMarkup
