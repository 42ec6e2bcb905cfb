import TemplateMarkup.Layout
import TemplateMarkup.Source.File

/-!
# Locations

A location is a place in a file, with the line and the column at which it is shown to
an author. It can be moved by a number of characters, and it can be shown with some of
the text around it.

## The model

The offset counts bytes and is never trusted: it may lie past the end of the content or
inside a character, and every use first lowers it to a boundary (`Location.cursor`).
Line and column are 64-bit counters that need not fit the content, as those of a
template inside another file do not. Counting up wraps around, counting down stops at
zero (`decrement`), and once a line end has been crossed the column is that of the
content.

The offset itself is a plain number: it is a byte count of a text, or a number that was
read from somewhere, and it is never counted up past the end of the text.
-/

namespace TemplateMarkup

namespace Source

open Layout (lineFeed)

/-! ### Lines and columns -/

/-- A line and a column, both counted from zero. -/
structure LineColumn where
  /-- The number of line ends before. -/
  line : UInt64
  /-- The number of characters since the last line end. -/
  column : UInt64
  deriving DecidableEq

/-- One less, but never below zero. -/
def decrement (n : UInt64) : UInt64 := if n = 0 then 0 else n - 1

theorem toNat_decrement (n : UInt64) : (decrement n).toNat = n.toNat - 1 := by
  unfold decrement
  split
  · simp_all
  · rename_i h
    have h0 : n.toNat ≠ 0 := fun e => h (UInt64.toNat_inj.1 (by simpa using e))
    rw [UInt64.toNat_sub_of_le _ _ (by rw [UInt64.le_iff_toNat_le]; simp; omega)]
    simp

/-- The number of characters since the last line end, in a text given backwards. -/
def columnOf (behind : List Char) : Nat := (behind.takeWhile (· ≠ lineFeed)).length

namespace LineColumn

/-- Behind the character `c`. -/
def next (p : LineColumn) (c : Char) : LineColumn :=
  if c = lineFeed then ⟨p.line + 1, 0⟩ else ⟨p.line, p.column + 1⟩

/-- In front of the character `c`, before which `behind` stands, given backwards. In
front of a line end the column is that of the content. -/
def previous (p : LineColumn) (c : Char) (behind : List Char) : LineColumn :=
  if c = lineFeed then ⟨decrement p.line, UInt64.ofNat (columnOf behind)⟩
  else ⟨p.line, decrement p.column⟩

/-- Behind the characters `cs`. -/
def forward (p : LineColumn) (cs : List Char) : LineColumn := cs.foldl next p

/-- In front of the last `n` characters of a text given backwards, or at its start. -/
def backward (p : LineColumn) : Nat → List Char → LineColumn
  | 0, _ => p
  | _ + 1, [] => p
  | n + 1, c :: behind => (p.previous c behind).backward n behind

end LineColumn

/-! ### Locations -/

/-- A place in a file. -/
structure Location where
  /-- The file. -/
  file : File
  /-- The number of bytes before the place. -/
  offset : Nat
  /-- The line that is shown. -/
  line : UInt64
  /-- The column that is shown. -/
  column : UInt64
  deriving DecidableEq

namespace Location

/-- The start of a file. -/
def start (file : File) : Location := ⟨file, 0, 0, 0⟩

/-- The place in the content: the last boundary that is not above the offset. -/
def cursor (l : Location) : Cursor := Cursor.seek l.file.content.toList l.offset

/-- Line and column. -/
def lineColumn (l : Location) : LineColumn := ⟨l.line, l.column⟩

/-- The same file at another place. -/
def placeAt (l : Location) (k : Cursor) (p : LineColumn) : Location :=
  ⟨l.file, k.offset, p.line, p.column⟩

/-- Moves a location by `delta` characters, towards the end of the file if positive and
towards its start if negative. It stops at either end. -/
def moveBy (l : Location) : Int → Location
  | .ofNat n =>
    l.placeAt (l.cursor.advance n) (l.lineColumn.forward (l.cursor.ahead.take n))
  | .negSucc n =>
    l.placeAt (l.cursor.retreat (n + 1)) (l.lineColumn.backward (n + 1) l.cursor.behind)

@[simp] theorem file_moveBy (l : Location) (delta : Int) : (l.moveBy delta).file = l.file := by
  cases delta <;> rfl

/-- How a location is shown: the address of the file, the line and the column. -/
def display (l : Location) : String :=
  l.file.url ++ "@" ++ l.line.toNat.repr ++ ":" ++ l.column.toNat.repr

/-! ### The text around a location -/

/-- What is shown on one side of a location, the nearest character first: at most `chars`
characters, and nothing after the line end with the number `lines`. That line end is
itself still shown, so `lines` zero is the same as one. -/
def excerpt : (chars lines : Nat) → List Char → List Char
  | 0, _, _ => []
  | _ + 1, _, [] => []
  | chars + 1, lines, c :: cs =>
    if c = lineFeed then
      if lines ≤ 1 then [c] else c :: excerpt chars (lines - 1) cs
    else c :: excerpt chars lines cs

/-- The text before and after a location, each at most `chars` characters and `lines`
lines long; `none` in an empty file, which has nothing to show. -/
def context? (l : Location) (chars lines : Nat) : Option (String × String) :=
  if l.file.content = "" then none
  else
    some (String.ofList (excerpt chars lines l.cursor.behind).reverse,
      String.ofList (excerpt chars lines l.cursor.ahead))

end Location

end Source

end TemplateMarkup
