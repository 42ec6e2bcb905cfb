import TemplateMarkup.Proofs.Source.Counts
import TemplateMarkup.Proofs.Source.Spans

/-!
# Moves after moves

A move can be cut in two anywhere: two moves in one direction lead to where their sum leads, with
the same line and the same column, whatever the location says of itself, and also if one of them
is stopped at an end of the file. A move and the move back are another matter. They go over the
same characters, but counting up and counting down are different, and only a location that is true
of its file comes back to what it was.

## What is proved

* `LineColumn.forward_append` and `LineColumn.backward_add` — counting can be cut in two.
* `moveBy_natCast_moveBy` and `moveBy_neg_moveBy` — and so can a move in either direction.
* `IsTrue.eq_of_standsAt` — at one place of a file there is one true location.
* `moves_compose` — moves in one direction add up, and a move is undone by the move back.
-/

namespace TemplateMarkup

namespace Source

/-! ### Places -/

namespace Cursor

theorem advance_advance (k : Cursor) (m n : Nat) :
    (k.advance m).advance n = k.advance (m + n) := by
  simp only [advance, List.take_add, List.reverse_append, List.append_assoc, List.drop_drop]

theorem retreat_retreat (k : Cursor) (m n : Nat) :
    (k.retreat m).retreat n = k.retreat (m + n) := by
  simp only [retreat, List.take_add, List.reverse_append, List.append_assoc, List.drop_drop]

/-- A place in a text is known by the number of characters before it. -/
theorem eq_of_length_behind {k k' : Cursor} (hcontent : k.content = k'.content)
    (hlength : k.behind.length = k'.behind.length) : k = k' := by
  obtain ⟨behind, ahead⟩ := k
  obtain ⟨behind', ahead'⟩ := k'
  have hbehind : behind.reverse.length = behind'.reverse.length := by
    rwa [List.length_reverse, List.length_reverse]
  obtain ⟨hreverse, hahead⟩ := List.append_inj hcontent hbehind
  exact congrArg₂ mk (List.reverse_inj.1 hreverse) hahead

end Cursor

/-- A move within the file and the move back lead back to the index they started at. -/
theorem clampIndex_neg {n k : Nat} {delta : Int} (hk : k ≤ n) (hstart : 0 ≤ k + delta)
    (hend : k + delta ≤ n) : clampIndex n (clampIndex n k delta) (-delta) = k := by
  unfold clampIndex
  omega

/-! ### Lines and columns -/

namespace LineColumn

theorem forward_append (p : LineColumn) (as bs : List Char) :
    p.forward (as ++ bs) = (p.forward as).forward bs :=
  List.foldl_append

/-- Counting back can be cut in two: the second part goes on where the first one has stopped. -/
theorem backward_add (p : LineColumn) (m n : Nat) (behind : List Char) :
    p.backward (m + n) behind = (p.backward m behind).backward n (behind.drop m) := by
  induction m generalizing p behind with
  | zero => rw [Nat.zero_add, List.drop_zero, backward]
  | succ m ih =>
    cases behind with
    | nil =>
      rw [Nat.succ_add, List.drop_nil, backward, backward]
      cases n <;> rfl
    | cons c behind =>
      rw [Nat.succ_add, List.drop_succ_cons, backward, backward]
      exact ih _ behind

/-- What fits a text is determined by it. -/
theorem Fits.eq {p q : LineColumn} {behind : List Char} (hp : p.Fits behind) (hq : q.Fits behind) :
    p = q := by
  have hline : p.line = q.line := UInt64.toNat_inj.1 (hp.line.trans hq.line.symm)
  have hcolumn : p.column = q.column := UInt64.toNat_inj.1 (hp.column.trans hq.column.symm)
  cases p
  cases q
  cases hline
  cases hcolumn
  rfl

end LineColumn

namespace Location

/-! ### Moves in one direction -/

/-- A move leads to the place that it says, and this is where the next move starts. -/
theorem cursor_moveBy (l : Location) (delta : Int) :
    (l.moveBy delta).cursor = l.cursor.moveBy delta :=
  (l.at_moveBy delta).cursor_eq

theorem moveBy_natCast (l : Location) (n : Nat) :
    l.moveBy n = l.placeAt (l.cursor.advance n) (l.lineColumn.forward (l.cursor.ahead.take n)) :=
  rfl

/-- Two moves on are one. -/
theorem moveBy_natCast_moveBy (l : Location) (m n : Nat) :
    (l.moveBy m).moveBy n = l.moveBy (m + n) := by
  have hcursor : (l.moveBy m).cursor = l.cursor.advance m := l.cursor_moveBy m
  have hcount : (l.moveBy m).lineColumn = l.lineColumn.forward (l.cursor.ahead.take m) := rfl
  rw [← Int.natCast_add, moveBy_natCast (l.moveBy m), hcursor, hcount, moveBy_natCast l (m + n),
    Cursor.advance_advance, List.take_add, LineColumn.forward_append]
  rfl

/-- Two moves back are one. -/
theorem moveBy_neg_moveBy (l : Location) (m n : Nat) :
    (l.moveBy (-m)).moveBy (-n) = l.moveBy (-(m + n)) := by
  have hcursor : (l.moveBy (-m)).cursor = l.cursor.retreat m := by
    rw [cursor_moveBy, Cursor.moveBy_neg]
  have hcount : (l.moveBy (-m)).lineColumn = l.lineColumn.backward m l.cursor.behind := by
    rw [moveBy_neg]
    rfl
  have hbehind : (l.cursor.retreat m).behind = l.cursor.behind.drop m := rfl
  rw [← Int.natCast_add, moveBy_neg (l.moveBy (-m)), hcursor, hcount, hbehind, moveBy_neg l (m + n),
    Cursor.retreat_retreat, LineColumn.backward_add, moveBy_neg l m]
  rfl

/-! ### The move back -/

/-- At one place of a file there is one true location. -/
theorem IsTrue.eq_of_standsAt {l m : Location} {k : Nat} (hl : l.IsTrue) (hm : m.IsTrue)
    (hfile : m.file = l.file) (hlk : l.StandsAt k) (hmk : m.StandsAt k) : m = l := by
  obtain ⟨place, hat, hfits⟩ := isTrue_iff.1 hl
  obtain ⟨place', hat', hfits'⟩ := isTrue_iff.1 hm
  obtain ⟨p, hp, hk⟩ := standsAt_iff.1 hlk
  obtain ⟨p', hp', hk'⟩ := standsAt_iff.1 hmk
  rw [← hp.cursor_eq, hat.cursor_eq] at hk
  rw [← hp'.cursor_eq, hat'.cursor_eq] at hk'
  have hplace : place' = place :=
    Cursor.eq_of_length_behind (by rw [← hat.content, ← hat'.content, hfile]) (hk'.symm.trans hk)
  subst hplace
  have hcount : m.lineColumn = l.lineColumn := hfits'.eq hfits
  have hoffset : m.offset = l.offset := hat'.offset.trans hat.offset.symm
  cases l
  cases m
  cases hfile
  cases hoffset
  cases hcount
  rfl

theorem StandsAt.le_length {l : Location} {k : Nat} (h : l.StandsAt k) :
    k ≤ l.file.content.toList.length := by
  obtain ⟨before, after, hcontent, -, rfl⟩ := h
  rw [hcontent, List.length_append]
  exact Nat.le_add_right _ _

/-- A true location comes back from a move that no end of the file cuts short. -/
theorem IsTrue.moveBy_moveBy_neg {l : Location} {k : Nat} {delta : Int} (h : l.IsTrue)
    (hsize : l.file.content.utf8ByteSize < byteLimit) (hk : l.StandsAt k) (hstart : 0 ≤ k + delta)
    (hend : k + delta ≤ l.file.content.toList.length) :
    (l.moveBy delta).moveBy (-delta) = l := by
  have hsize' : (l.moveBy delta).file.content.utf8ByteSize < byteLimit := by rwa [file_moveBy]
  have htrue := (h.moveBy hsize delta).moveBy hsize' (-delta)
  have hback := (hk.moveBy delta).moveBy (-delta)
  rw [file_moveBy, clampIndex_neg hk.le_length hstart hend] at hback
  refine h.eq_of_standsAt htrue ?_ hk hback
  rw [file_moveBy, file_moveBy]

end Location

/-! ### Moves after moves -/

/-- **Moves in one direction add up**, from any location and also where they are cut short. **A
move is undone by the move back** if the location is true and the move is not cut short. -/
theorem moves_compose (l : Location) :
    (∀ a b : Int, 0 ≤ a ∧ 0 ≤ b ∨ a ≤ 0 ∧ b ≤ 0 →
      (l.moveBy a).moveBy b = l.moveBy (a + b)) ∧
    (l.IsTrue → l.file.content.utf8ByteSize < byteLimit → ∀ (k : Nat) (a : Int), l.StandsAt k →
      0 ≤ k + a → k + a ≤ l.file.content.toList.length → (l.moveBy a).moveBy (-a) = l) := by
  constructor
  · rintro a b (⟨ha, hb⟩ | ⟨ha, hb⟩)
    · obtain ⟨m, rfl⟩ := Int.eq_ofNat_of_zero_le ha
      obtain ⟨n, rfl⟩ := Int.eq_ofNat_of_zero_le hb
      exact l.moveBy_natCast_moveBy m n
    · obtain ⟨m, rfl⟩ := Int.exists_eq_neg_ofNat ha
      obtain ⟨n, rfl⟩ := Int.exists_eq_neg_ofNat hb
      rw [← Int.neg_add]
      exact l.moveBy_neg_moveBy m n
  · intro htrue hsize k a hk hstart hend
    exact htrue.moveBy_moveBy_neg hsize hk hstart hend

/-- Back over a line end from inside a character, with counts that do not fit the file, and then
past the start; and from the start of the second line over the line end and back again. -/
theorem moves_compose_two_lines :
    let inside : Location := ⟨⟨"é\n€x", ""⟩, 4, 0, 0⟩
    let l : Location := ⟨⟨"é\n€x", ""⟩, 3, 1, 0⟩
    (inside.moveBy (-1)).moveBy (-9) = inside.moveBy (-10) ∧
      l.IsTrue ∧ l.file.content.utf8ByteSize < byteLimit ∧ l.StandsAt 2 ∧
      (l.moveBy (-2)).moveBy 2 = l := by
  intro inside l
  have htrue : l.IsTrue :=
    ⟨['é', '\n'], ['€', 'x'], [], by decide, by decide, by decide,
      ⟨List.not_mem_nil, .inr ⟨['é'], rfl⟩⟩, by decide⟩
  have hstands : l.StandsAt 2 := ⟨['é', '\n'], ['€', 'x'], by decide, by decide, rfl⟩
  have hsize : l.file.content.utf8ByteSize < byteLimit := by decide
  have hadd := (moves_compose inside).1 (-1) (-9) (.inr ⟨by decide, by decide⟩)
  have hundo := (moves_compose l).2 htrue hsize 2 (-2) hstands (by decide) (by decide)
  exact ⟨hadd, htrue, hsize, hstands, hundo⟩

end Source

end TemplateMarkup
