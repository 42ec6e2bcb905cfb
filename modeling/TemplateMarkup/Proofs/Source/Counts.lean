import TemplateMarkup.Proofs.Source.Context

/-!
# Lines and columns from anywhere

The line and the column of a location need not be those of its file: a template inside another
file starts at the line and the column at which it stands there. A move counts on from them, so
what it makes of them depends on the characters it goes over alone. On the way to the end the
counts wrap around at 64 bits, on the way back they stop at zero. A line end on the way puts the
column right, and from there on it is that of the file, whatever it was before.

## The model

What a move may make of a line and a column is said by the characters it goes over, in one piece,
for either direction by itself (`CountedOn`, `CountedBack`). The column of the file is said by
`LastLine`, which does not look for a line end. A column of the file is a number of 64 bits only
in a text that is short enough, which every text in memory is, and nothing else needs this.

## What is proved

* `CountedOn.next` and `CountedBack.previous` — one more character is counted.
* `CountedOn.forward` and `CountedBack.backward` — so is any number of them.
* `counts_from_anywhere` — where a move leads to, and what it makes of line and column.
-/

namespace TemplateMarkup

namespace Source

open Layout (lineFeed)

/-! ### The column of a file -/

/-- The column `n` is that of the file behind `text`: the number of characters behind the last
line end, or of all of them. -/
def TrueColumn (text : List Char) (n : Nat) : Prop := ∃ line, LastLine text line ∧ n = line.length

theorem trueColumn_iff {text : List Char} {n : Nat} :
    TrueColumn text n ↔ n = columnOf text.reverse := by
  constructor
  · rintro ⟨line, hline, rfl⟩
    exact (columnOf_reverse hline).symm
  · rintro rfl
    obtain ⟨line, hline⟩ := exists_lastLine text
    exact ⟨line, hline, columnOf_reverse hline⟩

theorem trueColumn_concat_lineFeed (text : List Char) : TrueColumn (text ++ [lineFeed]) 0 :=
  ⟨[], ⟨List.not_mem_nil, .inr ⟨text, rfl⟩⟩, rfl⟩

theorem trueColumn_concat_iff {text : List Char} {c : Char} {n : Nat} (hc : c ≠ lineFeed) :
    TrueColumn (text ++ [c]) n ↔ ∃ k, TrueColumn text k ∧ n = k + 1 := by
  simp only [trueColumn_iff, List.reverse_append, List.reverse_singleton, List.singleton_append,
    columnOf_cons_of_ne hc, exists_eq_left]

theorem TrueColumn.le_length {text : List Char} {n : Nat} (h : TrueColumn text n) :
    n ≤ text.length := by
  rw [trueColumn_iff.1 h, ← text.length_reverse]
  exact columnOf_le_length _

namespace LineColumn

/-! ### Counting on -/

/-- **Counted on**: from `p` behind `before`, line and column become `q` behind `crossed`. -/
structure CountedOn (p q : LineColumn) (before crossed : List Char) : Prop where
  /-- The line ends are added, and the sum wraps around. -/
  line : q.line.toNat = (p.line.toNat + crossed.count lineFeed) % UInt64.size
  /-- Behind a line end the column is that of the file, in a text that 64 bits can count. -/
  column_of_mem : (before ++ crossed).length < UInt64.size → lineFeed ∈ crossed →
    TrueColumn (before ++ crossed) q.column.toNat
  /-- Without a line end the characters are added, and the sum wraps around. -/
  column_of_notMem : lineFeed ∉ crossed →
    q.column.toNat = (p.column.toNat + crossed.length) % UInt64.size

variable {p q : LineColumn} {before crossed : List Char}

theorem CountedOn.refl (p : LineColumn) (before : List Char) : CountedOn p p before [] where
  line := (Nat.mod_eq_of_lt p.line.toNat_lt_size).symm
  column_of_mem := fun _ h => absurd h List.not_mem_nil
  column_of_notMem := fun _ => (Nat.mod_eq_of_lt p.column.toNat_lt_size).symm

/-- Counting up by one, which wraps around. -/
theorem toNat_add_one_mod {n : UInt64} {k : Nat} (h : n.toNat = k % UInt64.size) :
    (n + 1).toNat = (k + 1) % UInt64.size := by
  rw [UInt64.toNat_add, h]
  exact Nat.mod_add_mod k UInt64.size 1

/-- One more character is counted on. Behind a line end the column is that of the file, where it is
no longer than the text, so counting it up does not wrap around. -/
theorem CountedOn.next (h : CountedOn p q before crossed) (c : Char) :
    CountedOn p (q.next c) before (crossed ++ [c]) := by
  unfold LineColumn.next
  split
  · rename_i hc
    subst hc
    constructor
    · rw [List.count_append, List.count_singleton_self, ← Nat.add_assoc]
      exact toNat_add_one_mod h.line
    · intro _ _
      rw [← List.append_assoc]
      exact trueColumn_concat_lineFeed _
    · intro hmem
      exact absurd (List.mem_append_right crossed (List.mem_singleton_self lineFeed)) hmem
  · rename_i hc
    have hmem : lineFeed ∈ crossed ++ [c] ↔ lineFeed ∈ crossed := by
      rw [List.mem_append, List.mem_singleton, or_iff_left (Ne.symm hc)]
    constructor
    · rw [List.count_append, List.count_singleton, if_neg (by simpa using hc)]
      exact h.line
    · intro hsize hcrossed
      rw [← List.append_assoc, List.length_append, List.length_singleton] at hsize
      have hcolumn := h.column_of_mem (by omega) (hmem.1 hcrossed)
      have hle := hcolumn.le_length
      rw [← List.append_assoc, trueColumn_concat_iff hc]
      exact ⟨_, hcolumn, toNat_add_one rfl (by omega)⟩
    · intro hcrossed
      rw [List.length_append, List.length_singleton, ← Nat.add_assoc]
      exact toNat_add_one_mod (h.column_of_notMem (mt hmem.2 hcrossed))

/-- **Any number of characters is counted on.** -/
theorem CountedOn.forward (h : CountedOn p q before crossed) (cs : List Char) :
    CountedOn p (q.forward cs) before (crossed ++ cs) := by
  induction cs generalizing q crossed with
  | nil => rwa [List.append_nil]
  | cons c cs ih =>
    rw [← List.singleton_append, ← List.append_assoc]
    exact ih (h.next c)

/-! ### Counting back -/

/-- **Counted back**: from `p` behind `before` and `crossed`, line and column become `q` in front
of `crossed`. -/
structure CountedBack (p q : LineColumn) (before crossed : List Char) : Prop where
  /-- The line ends are taken away, down to zero. -/
  line : q.line.toNat = p.line.toNat - crossed.count lineFeed
  /-- In front of a line end the column is that of the file, in a text that 64 bits can count. -/
  column_of_mem : (before ++ crossed).length < UInt64.size → lineFeed ∈ crossed →
    TrueColumn before q.column.toNat
  /-- Without a line end the characters are taken away, down to zero. -/
  column_of_notMem : lineFeed ∉ crossed → q.column.toNat = p.column.toNat - crossed.length

theorem CountedBack.refl (p : LineColumn) (before : List Char) : CountedBack p p before [] where
  line := rfl
  column_of_mem := fun _ h => absurd h List.not_mem_nil
  column_of_notMem := fun _ => rfl

/-- One more character is counted back. In front of a line end the column is not counted but
looked for, and this finds that of the file; from there on it is not zero behind a character and
can be counted down. -/
theorem CountedBack.previous {c : Char} (h : CountedBack p q (before ++ [c]) crossed) :
    CountedBack p (q.previous c before.reverse) before (c :: crossed) := by
  unfold LineColumn.previous
  split
  · rename_i hc
    subst hc
    constructor
    · rw [toNat_decrement, h.line, List.count_cons_self, Nat.sub_sub]
    · intro hsize _
      rw [List.length_append] at hsize
      have hle := columnOf_le_length before.reverse
      rw [List.length_reverse] at hle
      exact trueColumn_iff.2 (UInt64.toNat_ofNat_of_lt (by omega))
    · intro hmem
      exact absurd List.mem_cons_self hmem
  · rename_i hc
    constructor
    · rw [List.count_cons_of_ne hc]
      exact h.line
    · intro hsize hmem
      have hcrossed := (List.mem_cons.1 hmem).resolve_left (Ne.symm hc)
      rw [← List.singleton_append, ← List.append_assoc] at hsize
      obtain ⟨k, hk, hcolumn⟩ := (trueColumn_concat_iff hc).1 (h.column_of_mem hsize hcrossed)
      rwa [toNat_decrement, hcolumn, Nat.add_sub_cancel]
    · intro hmem
      have hcrossed := mt (List.mem_cons_of_mem c) hmem
      rw [toNat_decrement, h.column_of_notMem hcrossed, Nat.sub_sub, List.length_cons]

/-- **Any number of characters is counted back.** -/
theorem CountedBack.backward {behind : List Char} (h : CountedBack p q behind.reverse crossed)
    (n : Nat) :
    CountedBack p (q.backward n behind) (behind.drop n).reverse
      ((behind.take n).reverse ++ crossed) := by
  induction n generalizing q behind crossed with
  | zero => exact h
  | succ n ih =>
    cases behind with
    | nil => exact h
    | cons c behind =>
      rw [List.reverse_cons] at h
      have hprevious := h.previous
      rw [List.reverse_reverse] at hprevious
      rw [List.take_succ_cons, List.reverse_cons, List.append_assoc, List.singleton_append]
      exact ih hprevious

end LineColumn

/-! ### Moves -/

namespace Location

/-- A move back, of no characters at all included. -/
theorem moveBy_neg (l : Location) (n : Nat) :
    l.moveBy (-n) = l.placeAt (l.cursor.retreat n) (l.lineColumn.backward n l.cursor.behind) := by
  cases n with
  | zero => simp [moveBy, Cursor.advance, Cursor.retreat, LineColumn.forward, LineColumn.backward]
  | succ n => rfl

/-- **A move from anywhere**: the offset is lowered to the last boundary that it and the end of
the content allow. From there the move goes over as many characters as it says, or over all there
are on that side, and their line ends and their number are added to line and column or taken away
from them. If there is a line end among them, the column is that of the file. -/
theorem counts_from_anywhere (l : Location) :
    ∃ first rest : List Char, l.file.content.toList = first ++ rest ∧
      IsGreatest {o | IsBoundary l.file.content.toList o ∧
        o ≤ min l.offset l.file.content.utf8ByteSize} (byteLength first) ∧
      (∀ n : Nat, ∃ crossed after, rest = crossed ++ after ∧ crossed.length = min n rest.length ∧
        (l.moveBy n).file = l.file ∧ (l.moveBy n).offset = byteLength (first ++ crossed) ∧
        LineColumn.CountedOn l.lineColumn (l.moveBy n).lineColumn first crossed) ∧
      ∀ n : Nat, ∃ before crossed, first = before ++ crossed ∧
        crossed.length = min n first.length ∧
        (l.moveBy (-n)).file = l.file ∧ (l.moveBy (-n)).offset = byteLength before ∧
        LineColumn.CountedBack l.lineColumn (l.moveBy (-n)).lineColumn before crossed := by
  refine ⟨l.cursor.behind.reverse, l.cursor.ahead, (Cursor.content_seek _ _).symm, ?_, ?_, ?_⟩
  · rw [byteLength_reverse, ← byteLength_toList]
    exact isGreatest_seek _ _
  · intro n
    refine ⟨l.cursor.ahead.take n, l.cursor.ahead.drop n, (List.take_append_drop n _).symm,
      List.length_take, file_moveBy l n, ?_, ?_⟩
    · rw [← byteLength_reverse, List.reverse_append, List.reverse_reverse]
      rfl
    · exact (LineColumn.CountedOn.refl l.lineColumn l.cursor.behind.reverse).forward _
  · intro n
    refine ⟨(l.cursor.behind.drop n).reverse, (l.cursor.behind.take n).reverse, ?_, ?_,
      file_moveBy l (-n), ?_, ?_⟩
    · rw [← List.reverse_append, List.take_append_drop]
    · rw [List.length_reverse, List.length_reverse, List.length_take]
    · rw [moveBy_neg, byteLength_reverse]
      rfl
    · have hback := (LineColumn.CountedBack.refl l.lineColumn l.cursor.behind.reverse).backward n
      rw [List.append_nil] at hback
      rw [moveBy_neg]
      exact hback

end Location

/-- From inside a character, with counts that do not fit the file: the line wraps around, and the
column is right behind the line end. -/
example : ((Location.mk ⟨"é\n€x", ""⟩ 1 0xFFFFFFFFFFFFFFFF 7).moveBy 3).lineColumn = ⟨0, 1⟩ := by
  decide

end Source

end TemplateMarkup
