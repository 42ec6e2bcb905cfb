import TemplateMarkup.Proofs.Source.Moves
import TemplateMarkup.Source.Span
import Mathlib.Order.Bounds.Basic

/-!
# The text shown around a location

Around a location is shown as much of the file as the limits allow: on either side the longest
part that has no more characters than the one limit, and no more line ends than the other. The
line end that reaches the limit is still shown, so only the line ends before it are counted, and a
limit of no lines is a limit of one. Whatever the offset of the location is, the parts are cut out
of the content between boundaries.

## The model

Which parts may be shown is said for either side by itself, `ShownAhead` for the first parts of a
text and `ShownBehind` for the last parts of one, and neither mentions how the longest is found.

## What is proved

* `isGreatest_seek` — a location stands at the last boundary that its offset and the end of the
  content allow.
* `shownAhead_iff` — the parts that may be shown are the first parts of the excerpt, and
  `longest_excerpt` and `longest_excerpt_reverse` — so the excerpt is the longest of them.
* `context_exact` — what is shown around a location.
-/

namespace TemplateMarkup

namespace Source

open Layout (lineFeed)

/-! ### Where a location stands -/

/-- Seeking stops at the greatest boundary that is not above the count, nor past the end, since the
next character does not fit. -/
theorem isGreatest_seek (cs : List Char) (n : Nat) :
    IsGreatest {o | IsBoundary cs o ∧ o ≤ min n (byteLength cs)} (Cursor.seek cs n).offset := by
  have hcontent : (Cursor.seek cs n).behind.reverse ++ (Cursor.seek cs n).ahead = cs :=
    Cursor.content_seek cs n
  constructor
  · refine ⟨Cursor.isBoundary_seek cs n, le_min (Cursor.offset_seek_le cs n) ?_⟩
    have hlength := congrArg byteLength hcontent
    rw [byteLength_append, byteLength_reverse] at hlength
    exact Nat.le.intro hlength
  · rintro o ⟨⟨before, after, hcs, rfl⟩, ho⟩
    obtain ⟨cs', hbefore, hahead⟩ | ⟨cs', hbehind, -⟩ :=
      List.append_eq_append_iff.1 (hcontent.trans hcs)
    · cases cs' with
      | nil =>
        rw [hbefore, List.append_nil, byteLength_reverse]
        exact Nat.le_refl _
      | cons c cs' =>
        have hnext := Cursor.lt_of_seek hahead
        rw [hbefore, byteLength_append, byteLength_reverse, byteLength_cons] at ho ⊢
        have := Nat.le_min.1 ho
        unfold Cursor.offset at hnext
        omega
    · have hlength := congrArg byteLength hbehind
      rw [byteLength_reverse, byteLength_append] at hlength
      exact Nat.le.intro hlength.symm

/-! ### What may be shown -/

/-- **A part of the text ahead that may be shown**: it has no more than `chars` characters, and
without its last character fewer than `lines` line ends. -/
structure ShownAhead (chars lines : Nat) (text part : List Char) : Prop where
  /-- The text starts with the part. -/
  starts : part <+: text
  /-- The part is not too long. -/
  chars : part.length ≤ chars
  /-- It does not go on behind too many line ends. -/
  lines : part.dropLast.count lineFeed < max lines 1

/-- **A part of the text behind that may be shown**: it has no more than `chars` characters, and
without its first character fewer than `lines` line ends. -/
structure ShownBehind (chars lines : Nat) (text part : List Char) : Prop where
  /-- The text ends with the part. -/
  ends : part <:+ text
  /-- The part is not too long. -/
  chars : part.length ≤ chars
  /-- It does not start before too many line ends. -/
  lines : part.tail.count lineFeed < max lines 1

/-- The part is one of those with the property, and none of them is longer. -/
def Longest (P : List Char → Prop) (part : List Char) : Prop :=
  P part ∧ ∀ other, P other → other.length ≤ part.length

/-- What may be shown behind is what may be shown ahead, backwards. -/
theorem shownBehind_iff {chars lines : Nat} {text part : List Char} :
    ShownBehind chars lines text part ↔ ShownAhead chars lines text.reverse part.reverse := by
  have hcount : part.reverse.dropLast.count lineFeed = part.tail.count lineFeed := by
    rw [List.dropLast_reverse, List.count_reverse]
  constructor
  · rintro ⟨hends, hchars, hlines⟩
    exact ⟨List.reverse_prefix.2 hends, by rwa [List.length_reverse], by rwa [hcount]⟩
  · rintro ⟨hstarts, hchars, hlines⟩
    exact ⟨List.reverse_prefix.1 hstarts, by rwa [List.length_reverse] at hchars,
      by rwa [hcount] at hlines⟩

theorem shownAhead_nil (chars lines : Nat) (text : List Char) : ShownAhead chars lines text [] :=
  ⟨List.nil_prefix, Nat.zero_le _, Nat.lt_of_lt_of_le Nat.one_pos (Nat.le_max_right ..)⟩

theorem shownAhead_iff_nil_or_cons {chars lines : Nat} {c : Char} {text part : List Char} :
    ShownAhead chars lines (c :: text) part ↔
      part = [] ∨ ∃ rest, part = c :: rest ∧ ShownAhead chars lines (c :: text) (c :: rest) := by
  constructor
  · intro h
    obtain rfl | ⟨rest, rfl, -⟩ := List.prefix_cons_iff.1 h.starts
    · exact .inl rfl
    · exact .inr ⟨rest, rfl, h⟩
  · rintro (rfl | ⟨rest, rfl, h⟩)
    · exact shownAhead_nil chars lines (c :: text)
    · exact h

/-- Behind a character that ends no line the same number of lines may be shown. -/
theorem shownAhead_cons_iff {chars lines : Nat} {c : Char} {text part : List Char}
    (hc : c ≠ lineFeed) :
    ShownAhead (chars + 1) lines (c :: text) (c :: part) ↔ ShownAhead chars lines text part := by
  have hcount : (c :: part).dropLast.count lineFeed = part.dropLast.count lineFeed := by
    cases part with
    | nil => rfl
    | cons d part => rw [List.dropLast_cons_cons, List.count_cons_of_ne hc]
  constructor
  · rintro ⟨hstarts, hchars, hlines⟩
    exact ⟨(List.cons_prefix_cons.1 hstarts).2, Nat.le_of_succ_le_succ hchars, hcount ▸ hlines⟩
  · rintro ⟨hstarts, hchars, hlines⟩
    exact ⟨List.cons_prefix_cons.2 ⟨rfl, hstarts⟩, Nat.succ_le_succ hchars, hcount ▸ hlines⟩

/-- Behind a line end one line less may be shown, if it was not the last one. -/
theorem shownAhead_lineFeed_iff {chars lines : Nat} {text part : List Char} :
    ShownAhead (chars + 1) lines (lineFeed :: text) (lineFeed :: part) ↔
      part = [] ∨ 1 < lines ∧ ShownAhead chars (lines - 1) text part := by
  cases part with
  | nil =>
    have hshown : ShownAhead (chars + 1) lines (lineFeed :: text) [lineFeed] :=
      ⟨List.cons_prefix_cons.2 ⟨rfl, List.nil_prefix⟩, Nat.le_add_left 1 chars,
        (shownAhead_nil chars lines text).lines⟩
    exact iff_of_true hshown (.inl rfl)
  | cons d part =>
    have hcount : (lineFeed :: d :: part).dropLast.count lineFeed =
        (d :: part).dropLast.count lineFeed + 1 := by
      rw [List.dropLast_cons_cons, List.count_cons_self]
    constructor
    · rintro ⟨hstarts, hchars, hlines⟩
      rw [hcount] at hlines
      exact .inr ⟨by omega, (List.cons_prefix_cons.1 hstarts).2, Nat.le_of_succ_le_succ hchars,
        by omega⟩
    · rintro (h | ⟨hmore, hstarts, hchars, hlines⟩)
      · cases h
      · exact ⟨List.cons_prefix_cons.2 ⟨rfl, hstarts⟩, Nat.succ_le_succ hchars,
          by rw [hcount]; omega⟩

namespace Location

/-- **The parts that may be shown are the first parts of the excerpt.** -/
theorem shownAhead_iff {chars lines : Nat} {text part : List Char} :
    ShownAhead chars lines text part ↔ part <+: excerpt chars lines text := by
  fun_induction excerpt chars lines text generalizing part with
  | case1 lines text =>
    rw [List.prefix_nil]
    constructor
    · intro h
      exact List.eq_nil_of_length_eq_zero (Nat.le_zero.1 h.chars)
    · rintro rfl
      exact shownAhead_nil 0 lines text
  | case2 lines chars =>
    rw [List.prefix_nil]
    constructor
    · intro h
      exact List.prefix_nil.1 h.starts
    · rintro rfl
      exact shownAhead_nil (chars + 1) lines []
  | case3 chars lines text hlines =>
    rw [shownAhead_iff_nil_or_cons, List.prefix_cons_iff]
    refine or_congr_right (exists_congr fun rest => and_congr_right fun _ => ?_)
    rw [shownAhead_lineFeed_iff, List.prefix_nil]
    exact or_iff_left fun h => absurd h.1 (Nat.not_lt.2 hlines)
  | case4 chars lines text hlines ih =>
    rw [shownAhead_iff_nil_or_cons, List.prefix_cons_iff]
    refine or_congr_right (exists_congr fun rest => and_congr_right fun _ => ?_)
    rw [shownAhead_lineFeed_iff, ← ih]
    constructor
    · rintro (rfl | ⟨-, h⟩)
      · exact shownAhead_nil chars (lines - 1) text
      · exact h
    · intro h
      exact .inr ⟨Nat.not_le.1 hlines, h⟩
  | case5 chars lines c text hc ih =>
    rw [shownAhead_iff_nil_or_cons, List.prefix_cons_iff]
    refine or_congr_right (exists_congr fun rest => and_congr_right fun _ => ?_)
    rw [shownAhead_cons_iff hc, ih]

/-- What an excerpt shows is the longest part that may be shown of a text. -/
theorem longest_excerpt (chars lines : Nat) (text : List Char) :
    Longest (ShownAhead chars lines text) (excerpt chars lines text) :=
  ⟨shownAhead_iff.2 (List.prefix_refl _), fun _ h => (shownAhead_iff.1 h).length_le⟩

/-- The same, where the text is gone through backwards. -/
theorem longest_excerpt_reverse (chars lines : Nat) (behind : List Char) :
    Longest (ShownBehind chars lines behind.reverse) (excerpt chars lines behind).reverse := by
  constructor
  · rw [shownBehind_iff, List.reverse_reverse, List.reverse_reverse]
    exact (longest_excerpt chars lines behind).1
  · intro part h
    rw [shownBehind_iff, List.reverse_reverse] at h
    have hle := (longest_excerpt chars lines behind).2 _ h
    rwa [List.length_reverse] at hle ⊢

/-! ### What is shown around a location -/

/-- **What is shown around a location**: nothing at all in an empty file, and otherwise, on either
side of the last boundary that the offset and the end of the content allow, the longest part that
may be shown. Both parts lie in the content, between boundaries, whatever the offset is. -/
theorem context_exact (l : Location) (chars lines : Nat) :
    ∃ first rest before after : List Char,
      l.file.content.toList = first ++ rest ∧
      IsGreatest {o | IsBoundary l.file.content.toList o ∧
        o ≤ min l.offset l.file.content.utf8ByteSize} (byteLength first) ∧
      Longest (ShownBehind chars lines first) before ∧
      Longest (ShownAhead chars lines rest) after ∧
      l.context? chars lines = (if l.file.content = "" then none
        else some (String.ofList before, String.ofList after)) ∧
      Span.slice? l.file.content.toList (byteLength first - byteLength before) (byteLength first) =
        some before ∧
      Span.slice? l.file.content.toList (byteLength first) (byteLength first + byteLength after) =
        some after := by
  have hcontent : l.cursor.behind.reverse ++ l.cursor.ahead = l.file.content.toList :=
    Cursor.content_seek _ _
  have hbefore := longest_excerpt_reverse chars lines l.cursor.behind
  have hafter := longest_excerpt chars lines l.cursor.ahead
  refine ⟨l.cursor.behind.reverse, l.cursor.ahead, _, _, hcontent.symm, ?_, hbefore, hafter, rfl,
    ?_, ?_⟩
  · rw [byteLength_reverse, ← byteLength_toList]
    exact isGreatest_seek _ _
  · obtain ⟨outer, houter⟩ := hbefore.1.ends
    have hslice := Span.slice?_append outer (excerpt chars lines l.cursor.behind).reverse l.cursor.ahead
    rw [houter, hcontent] at hslice
    rw [← hslice, ← houter, byteLength_append, Nat.add_sub_cancel]
  · obtain ⟨outer, houter⟩ := hafter.1.starts
    have hslice := Span.slice?_append l.cursor.behind.reverse (excerpt chars lines l.cursor.ahead) outer
    rw [List.append_assoc, houter, hcontent, byteLength_append] at hslice
    exact hslice

end Location

end Source

end TemplateMarkup
