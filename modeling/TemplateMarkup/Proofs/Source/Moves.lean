import TemplateMarkup.Source.Location

/-!
# Moving a location

A location counts bytes, lines and columns, and it is moved by characters. As long as it tells
the truth about its file, it goes on telling the truth wherever it is moved: the three counts
stay in step, forward and backward, over characters of any width, and neither end of the file
and no size of a move puts them out.

## The model

The truth is said by cutting the content in two. `LastLine` says what stands behind the last
line end of a text without looking for it, which is what moving does. Inside the proofs a
location stands at a `Cursor`, and its line and column have to fit what is behind (`Fits`).

## What is proved

* `Cursor.seek_content` — a count that is the offset of a place leads back to this place.
* `Fits.next` and `Fits.previous` — going over one character keeps line and column in step, and
  `Fits.forward` and `Fits.backward` — so does going over any number of them.
* `Location.StandsAt.moveBy` — where a move leads to, counted in characters.
* `moves_stay_true` — a run of moves leads from true locations to true locations.
-/

namespace TemplateMarkup

namespace Source

open Layout (lineFeed)

/-! ### Byte counts -/

theorem byteLength_toList (s : String) : byteLength s.toList = s.utf8ByteSize := by
  have h (cs : List Char) : byteLength cs = (String.ofList cs).utf8ByteSize := by
    induction cs with
    | nil => rfl
    | cons c cs ih => rw [byteLength_cons, ih, String.ofList_cons, String.utf8ByteSize_append,
        String.utf8ByteSize_singleton]
  rw [h, String.ofList_toList]

/-- Every character takes a byte at least. -/
theorem length_le_byteLength (cs : List Char) : cs.length ≤ byteLength cs := by
  induction cs with
  | nil => exact Nat.le_refl 0
  | cons c cs ih =>
    have := c.utf8Size_pos
    rw [List.length_cons, byteLength_cons]
    omega

/-- The number of bytes that the content of a file never reaches, 2⁶³: a text in memory is
smaller. -/
def byteLimit : Nat := 0x8000000000000000

/-! ### The place of a byte count -/

namespace Cursor

theorem seekFrom_append (behind before after : List Char) :
    seekFrom behind (before ++ after) (byteLength before) = ⟨before.reverse ++ behind, after⟩ := by
  induction before generalizing behind with
  | nil =>
    cases after with
    | nil => rfl
    | cons c after =>
      have := c.utf8Size_pos
      have hc : ¬ c.utf8Size ≤ 0 := by omega
      simp [seekFrom, hc]
  | cons c before ih => simp [seekFrom, ih]

/-- The offset of a place leads back to the place. -/
theorem seek_content (k : Cursor) : seek k.content k.offset = k := by
  have h := seekFrom_append [] k.behind.reverse k.ahead
  simpa [seek, content, offset] using h

/-- The place `delta` characters further on or back. -/
def moveBy (k : Cursor) : Int → Cursor
  | .ofNat n => k.advance n
  | .negSucc n => k.retreat (n + 1)

@[simp] theorem content_moveBy (k : Cursor) (delta : Int) : (k.moveBy delta).content = k.content := by
  cases delta with
  | ofNat n => exact content_advance k n
  | negSucc n => exact content_retreat k (n + 1)

end Cursor

/-- The index `delta` characters on from the index `k`, in a text of `n` characters. -/
def clampIndex (n k : Nat) (delta : Int) : Nat := (max 0 (min (k + delta) n)).toNat

theorem Cursor.length_behind_moveBy (k : Cursor) (delta : Int) :
    (k.moveBy delta).behind.length = clampIndex k.content.length k.behind.length delta := by
  cases delta with
  | ofNat n =>
    simp only [Cursor.moveBy, advance, content, clampIndex, List.length_append,
      List.length_reverse, List.length_take, Int.ofNat_eq_natCast]
    omega
  | negSucc n =>
    simp only [Cursor.moveBy, retreat, content, clampIndex, List.length_append,
      List.length_reverse, List.length_drop]
    omega

/-! ### Lines and columns -/

/-- `line` is what stands behind the last line end of `text`, or all of the text if no line
ends in it. -/
def LastLine (text line : List Char) : Prop :=
  lineFeed ∉ line ∧ (text = line ∨ ∃ before, text = before ++ lineFeed :: line)

theorem columnOf_reverse {text line : List Char} (h : LastLine text line) :
    columnOf text.reverse = line.length := by
  obtain ⟨hline, htext⟩ := h
  have hall : ∀ c ∈ line.reverse, decide (c ≠ lineFeed) = true := by
    intro c hc
    have hne : c ≠ lineFeed := fun e => hline (e ▸ List.mem_reverse.1 hc)
    exact decide_eq_true hne
  rcases htext with rfl | ⟨before, rfl⟩
  · rw [columnOf, ← List.append_nil text.reverse, List.takeWhile_append_of_pos hall]
    simp
  · rw [columnOf, List.reverse_append, List.reverse_cons, List.append_assoc,
      List.takeWhile_append_of_pos hall]
    simp

theorem exists_lastLine (text : List Char) : ∃ line, LastLine text line := by
  induction text with
  | nil => exact ⟨[], List.not_mem_nil, .inl rfl⟩
  | cons c text ih =>
    obtain ⟨line, hline, rfl | ⟨before, rfl⟩⟩ := ih
    · by_cases hc : c = lineFeed
      · exact ⟨text, hline, .inr ⟨[], by rw [hc]; rfl⟩⟩
      · exact ⟨c :: text, by simp [hline, Ne.symm hc], .inl rfl⟩
    · exact ⟨line, hline, .inr ⟨c :: before, rfl⟩⟩

theorem columnOf_le_length (behind : List Char) : columnOf behind ≤ behind.length :=
  (List.takeWhile_sublist _).length_le

theorem columnOf_cons_of_ne {c : Char} (hc : c ≠ lineFeed) (behind : List Char) :
    columnOf (c :: behind) = columnOf behind + 1 := by
  simp [columnOf, hc]

theorem columnOf_cons_lineFeed (behind : List Char) : columnOf (lineFeed :: behind) = 0 := by
  simp [columnOf]

namespace LineColumn

/-- Line and column are those behind a text, which is given backwards. -/
structure Fits (p : LineColumn) (behind : List Char) : Prop where
  /-- The line is the number of line ends. -/
  line : p.line.toNat = behind.count lineFeed
  /-- The column is the number of characters since the last of them. -/
  column : p.column.toNat = columnOf behind

/-- Counting up by one goes right as long as the count fits into 64 bits. -/
theorem toNat_add_one {n : UInt64} {k : Nat} (hn : n.toNat = k) (hk : k + 1 < UInt64.size) :
    (n + 1).toNat = k + 1 := by
  rw [UInt64.toNat_add, hn]
  exact Nat.mod_eq_of_lt hk

/-- Going over a character keeps line and column in step. -/
theorem Fits.next {p : LineColumn} {behind : List Char} (h : p.Fits behind) (c : Char)
    (hsize : behind.length + 1 < UInt64.size) : (p.next c).Fits (c :: behind) := by
  have hline : behind.count lineFeed ≤ behind.length := List.count_le_length
  have hcolumn := columnOf_le_length behind
  unfold LineColumn.next
  split
  · rename_i hc
    subst hc
    exact ⟨by rw [List.count_cons_self, toNat_add_one h.line (by omega)],
      (columnOf_cons_lineFeed behind).symm⟩
  · rename_i hc
    exact ⟨by rw [List.count_cons_of_ne hc, h.line],
      by rw [columnOf_cons_of_ne hc, toNat_add_one h.column (by omega)]⟩

/-- Going back over a character does so too. Over a line end the column is counted anew. -/
theorem Fits.previous {p : LineColumn} {behind : List Char} {c : Char} (h : p.Fits (c :: behind))
    (hsize : behind.length < UInt64.size) : (p.previous c behind).Fits behind := by
  have hcolumn := columnOf_le_length behind
  unfold LineColumn.previous
  split
  · rename_i hc
    subst hc
    refine ⟨?_, UInt64.toNat_ofNat_of_lt (by omega)⟩
    rw [toNat_decrement, h.line, List.count_cons_self, Nat.add_sub_cancel]
  · rename_i hc
    refine ⟨by rw [h.line, List.count_cons_of_ne hc], ?_⟩
    rw [toNat_decrement, h.column, columnOf_cons_of_ne hc, Nat.add_sub_cancel]

theorem Fits.forward {p : LineColumn} {behind : List Char} (h : p.Fits behind) (cs : List Char)
    (hsize : behind.length + cs.length < UInt64.size) :
    (p.forward cs).Fits (cs.reverse ++ behind) := by
  induction cs generalizing p behind with
  | nil => exact h
  | cons c cs ih =>
    rw [List.length_cons] at hsize
    rw [List.reverse_cons, List.append_assoc, List.singleton_append]
    refine ih (h.next c (by omega)) ?_
    rw [List.length_cons]
    omega

theorem Fits.backward {p : LineColumn} {behind : List Char} (h : p.Fits behind)
    (hsize : behind.length < UInt64.size) (n : Nat) : (p.backward n behind).Fits (behind.drop n) := by
  induction n generalizing p behind with
  | zero => exact h
  | succ n ih =>
    cases behind with
    | nil => exact h
    | cons c behind =>
      rw [List.length_cons] at hsize
      exact ih (h.previous (by omega)) (by omega)

end LineColumn

/-! ### Locations -/

namespace Location

/-- The location stands behind the first `k` characters of its file. -/
def StandsAt (l : Location) (k : Nat) : Prop :=
  ∃ before after, l.file.content.toList = before ++ after ∧ l.offset = byteLength before ∧
    k = before.length

/-- **The location is true**: its offset cuts the content in two, its line is the number of
line ends before the cut, and its column the number of characters between the last of them,
or the start of the file, and the cut. -/
def IsTrue (l : Location) : Prop :=
  ∃ before after line, l.file.content.toList = before ++ after ∧ l.offset = byteLength before ∧
    l.line.toNat = before.count lineFeed ∧ LastLine before line ∧ l.column.toNat = line.length

/-- The location stands at a place of its file. -/
structure At (l : Location) (k : Cursor) : Prop where
  /-- The place is one in the content of the file. -/
  content : l.file.content.toList = k.content
  /-- It has the offset of the location. -/
  offset : l.offset = k.offset

/-- A location stands where its offset cuts the content in two. -/
theorem At.of_cut {l : Location} {before after : List Char}
    (hcontent : l.file.content.toList = before ++ after) (hoffset : l.offset = byteLength before) :
    l.At ⟨before.reverse, after⟩ :=
  ⟨by simp [hcontent, Cursor.content], by simp [hoffset, Cursor.offset]⟩

theorem At.cursor_eq {l : Location} {k : Cursor} (h : l.At k) : l.cursor = k := by
  rw [cursor, h.content, h.offset, Cursor.seek_content]

/-- A location is moved from place to place. -/
theorem At.moveBy {l : Location} {k : Cursor} (h : l.At k) (delta : Int) :
    (l.moveBy delta).At (k.moveBy delta) := by
  refine ⟨by rw [file_moveBy, Cursor.content_moveBy, h.content], ?_⟩
  rw [← h.cursor_eq]
  cases delta <;> rfl

theorem standsAt_iff {l : Location} {n : Nat} :
    l.StandsAt n ↔ ∃ k, l.At k ∧ n = k.behind.length := by
  constructor
  · rintro ⟨before, after, hc, ho, rfl⟩
    exact ⟨⟨before.reverse, after⟩, .of_cut hc ho, List.length_reverse.symm⟩
  · rintro ⟨k, hk, rfl⟩
    exact ⟨k.behind.reverse, k.ahead, hk.content, by simp [hk.offset, Cursor.offset], by simp⟩

theorem isTrue_iff {l : Location} : l.IsTrue ↔ ∃ k, l.At k ∧ l.lineColumn.Fits k.behind := by
  constructor
  · rintro ⟨before, after, line, hc, ho, hl, hline, hcol⟩
    refine ⟨⟨before.reverse, after⟩, .of_cut hc ho, by simp [lineColumn, hl], ?_⟩
    rw [columnOf_reverse hline]
    exact hcol
  · rintro ⟨k, hk, hfits⟩
    obtain ⟨line, hline⟩ := exists_lastLine k.behind.reverse
    refine ⟨k.behind.reverse, k.ahead, line, hk.content, by simp [hk.offset, Cursor.offset],
      ?_, hline, ?_⟩
    · rw [List.count_reverse]
      exact hfits.line
    · rw [← columnOf_reverse hline, List.reverse_reverse]
      exact hfits.column

/-- A move leads as many characters on as it says, or to the end of the file it goes towards. -/
theorem StandsAt.moveBy {l : Location} {n : Nat} (h : l.StandsAt n) (delta : Int) :
    (l.moveBy delta).StandsAt (clampIndex l.file.content.toList.length n delta) := by
  obtain ⟨k, hk, rfl⟩ := standsAt_iff.1 h
  refine standsAt_iff.2 ⟨k.moveBy delta, hk.moveBy delta, ?_⟩
  rw [Cursor.length_behind_moveBy, hk.content]

/-- A move leads from a true location to a true location. -/
theorem IsTrue.moveBy {l : Location} (h : l.IsTrue) (hsize : l.file.content.utf8ByteSize < byteLimit)
    (delta : Int) : (l.moveBy delta).IsTrue := by
  obtain ⟨k, hk, hfits⟩ := isTrue_iff.1 h
  have hlength : k.behind.length + k.ahead.length < UInt64.size := by
    have hle := length_le_byteLength l.file.content.toList
    rw [byteLength_toList, hk.content, Cursor.content, List.length_append, List.length_reverse] at hle
    unfold byteLimit at hsize
    unfold UInt64.size
    omega
  refine isTrue_iff.2 ⟨k.moveBy delta, hk.moveBy delta, ?_⟩
  cases delta with
  | ofNat n =>
    have htake := List.length_take_le' n k.ahead
    have hforward := hfits.forward (k.ahead.take n) (by omega)
    rw [← hk.cursor_eq] at hforward ⊢
    exact hforward
  | negSucc n =>
    have hbackward := hfits.backward (by omega) (n + 1)
    rw [← hk.cursor_eq] at hbackward ⊢
    exact hbackward

end Location

/-- **A true location stays true**, whatever moves are made from it, and the characters before
it are counted by adding up the moves, each of them cut short at the ends of the file. -/
theorem moves_stay_true {l : Location} (h : l.IsTrue)
    (hsize : l.file.content.utf8ByteSize < byteLimit) (deltas : List Int) :
    (deltas.foldl Location.moveBy l).IsTrue ∧
    (∀ k, l.StandsAt k → (deltas.foldl Location.moveBy l).StandsAt
      (deltas.foldl (clampIndex l.file.content.toList.length) k)) ∧
    ∀ k delta, (deltas.foldl Location.moveBy l).StandsAt k →
      ((deltas.foldl Location.moveBy l).moveBy delta).StandsAt
        (clampIndex l.file.content.toList.length k delta) := by
  induction deltas generalizing l with
  | nil => exact ⟨h, fun k hk => hk, fun k delta hk => hk.moveBy delta⟩
  | cons delta deltas ih =>
    have hfile : (l.moveBy delta).file = l.file := Location.file_moveBy l delta
    obtain ⟨htrue, hrun, hsingle⟩ := ih (h.moveBy hsize delta) (by rw [hfile]; exact hsize)
    rw [hfile] at hrun hsingle
    exact ⟨htrue, fun k hk => hrun _ (hk.moveBy delta), hsingle⟩

/-- From the start of the second line to the start of the file, however far, then to its end,
however far, and back over a character of three bytes. -/
theorem moves_stay_true_two_lines :
    let l : Location := ⟨⟨"é\n€x", ""⟩, 3, 1, 0⟩
    let deltas : List Int := [-9223372036854775808, 9223372036854775807, -2]
    l.IsTrue ∧ l.file.content.utf8ByteSize < byteLimit ∧
      (deltas.foldl Location.moveBy l).IsTrue ∧ (deltas.foldl Location.moveBy l).StandsAt 2 := by
  intro l deltas
  have htrue : l.IsTrue :=
    ⟨['é', '\n'], ['€', 'x'], [], by decide, by decide, by decide,
      ⟨List.not_mem_nil, .inr ⟨['é'], rfl⟩⟩, by decide⟩
  have hstands : l.StandsAt 2 := ⟨['é', '\n'], ['€', 'x'], by decide, by decide, rfl⟩
  have hsize : l.file.content.utf8ByteSize < byteLimit := by decide
  have hindex : deltas.foldl (clampIndex l.file.content.toList.length) 2 = 2 := by decide
  obtain ⟨hmoved, hrun, -⟩ := moves_stay_true htrue hsize deltas
  exact ⟨htrue, hsize, hmoved, hindex ▸ hrun 2 hstands⟩

end Source

end TemplateMarkup
