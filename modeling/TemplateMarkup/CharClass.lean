/-!
# Character classes

A character class is a list of inclusive ranges of characters. It can be asked
whether it contains a character, and it can be written as the body of a bracketed
class of a regular expression: `\x{20}` for one character, `\x{2000}-\x{200A}` for
a range, the code points in upper-case hexadecimal.

## The model

`CharClass.contains` compares code points with the bounds of the ranges, and never
looks at the written form. `CharClass.ofPattern?` reads a written form back, item by
item, and never looks at a table, so that the two can be compared.

## What is proved

* `contains_iff` — the characters of a class are those between the bounds of a range.
-/

namespace TemplateMarkup

/-- The characters from `lo` to `hi`, both included. -/
structure CharRange where
  /-- The first character. -/
  lo : Char
  /-- The last character. -/
  hi : Char
  deriving DecidableEq

/-- A set of characters, as the ranges that make it up. -/
structure CharClass where
  /-- The ranges, in the order in which they are written. -/
  ranges : List CharRange
  deriving DecidableEq

namespace CharRange

/-- The range of one character. -/
def one (c : Char) : CharRange := ⟨c, c⟩

/-- Whether a character lies between the bounds. -/
def contains (r : CharRange) (c : Char) : Bool := r.lo ≤ c && c ≤ r.hi

theorem contains_iff {r : CharRange} {c : Char} : r.contains c = true ↔ r.lo ≤ c ∧ c ≤ r.hi := by
  simp [contains]

end CharRange

namespace CharClass

/-- Whether a character lies in one of the ranges. -/
def contains (k : CharClass) (c : Char) : Bool := k.ranges.any (·.contains c)

theorem contains_iff {k : CharClass} {c : Char} :
    k.contains c = true ↔ ∃ r ∈ k.ranges, r.lo ≤ c ∧ c ≤ r.hi := by
  simp [contains, CharRange.contains_iff]

/-! ### The written form -/

/-- A code point in upper-case hexadecimal, without leading zeros. -/
def hexUpper (n : Nat) : List Char := (Nat.toDigits 16 n).map Char.toUpper

/-- One character of a class as it is written: its code point between braces. -/
def codePoint (c : Char) : List Char := ['\\', 'x', '{'] ++ hexUpper c.toNat ++ ['}']

/-- A range as it is written; a range of one character is written as the character. -/
def item (r : CharRange) : List Char :=
  if r.lo = r.hi then codePoint r.lo else codePoint r.lo ++ '-' :: codePoint r.hi

/-- The class as the body of a bracketed class of a regular expression. -/
def pattern (k : CharClass) : String := String.ofList (k.ranges.flatMap item)

/-! ### Reading the written form -/

/-- The value of an upper-case hexadecimal digit. -/
def hexValue? (c : Char) : Option Nat :=
  if '0' ≤ c ∧ c ≤ '9' then some (c.toNat - '0'.toNat)
  else if 'A' ≤ c ∧ c ≤ 'F' then some (c.toNat - 'A'.toNat + 10)
  else none

/-- Reads hexadecimal digits up to the closing brace; `n` is what the digits so far
stand for. -/
def readHex (n : Nat) : List Char → Option (Nat × List Char)
  | [] => none
  | c :: rest =>
    if c = '}' then some (n, rest)
    else (hexValue? c).bind fun d => readHex (16 * n + d) rest

/-- Reads one written code point, which has to be that of a character. -/
def readCodePoint : List Char → Option (Char × List Char)
  | '\\' :: 'x' :: '{' :: rest => do
    let (n, rest) ← readHex 0 rest
    if n.isValidChar then some (Char.ofNat n, rest) else none
  | _ => none

theorem length_readHex {n m : Nat} {s r : List Char} (h : readHex n s = some (m, r)) :
    r.length < s.length := by
  induction s generalizing n with
  | nil => simp [readHex] at h
  | cons c rest ih =>
    by_cases hc : c = '}'
    · simp [readHex, hc] at h; simp [h.2]
    · simp only [readHex, hc, if_false, Option.bind_eq_some_iff] at h
      obtain ⟨d, _, h⟩ := h
      have := ih h
      simp; omega

theorem length_readCodePoint {c : Char} {s r : List Char} (h : readCodePoint s = some (c, r)) :
    r.length < s.length := by
  unfold readCodePoint at h
  split at h
  · simp only [bind, Option.bind_eq_some_iff] at h
    obtain ⟨⟨n, r'⟩, hn, h⟩ := h
    have := length_readHex hn
    simp only at h
    split at h
    · simp only [Option.some.injEq, Prod.mk.injEq] at h
      simp only [List.length_cons, ← h.2]; omega
    · simp at h
  · simp at h

/-- Reads one item: a code point, or two with a hyphen between them. -/
def readItem (s : List Char) : Option (CharRange × List Char) := do
  let (lo, rest) ← readCodePoint s
  match rest with
  | '-' :: rest => do
    let (hi, rest) ← readCodePoint rest
    some (⟨lo, hi⟩, rest)
  | rest => some (.one lo, rest)

theorem length_readItem {i : CharRange} {s r : List Char} (h : readItem s = some (i, r)) :
    r.length < s.length := by
  simp only [readItem, bind, Option.bind_eq_some_iff] at h
  obtain ⟨⟨lo, r₁⟩, h₁, h⟩ := h
  have l₁ := length_readCodePoint h₁
  simp only at h
  split at h
  · simp only [Option.bind_eq_some_iff] at h
    obtain ⟨⟨hi, r₂⟩, h₂, h⟩ := h
    have l₂ := length_readCodePoint h₂
    simp only [Option.some.injEq, Prod.mk.injEq] at h
    simp only [List.length_cons] at l₁
    rw [← h.2]; omega
  · simp only [Option.some.injEq, Prod.mk.injEq] at h
    rw [← h.2]; exact l₁

/-- Reads items to the end of the text. -/
def readItems (s : List Char) : Option (List CharRange) :=
  if s.isEmpty then some []
  else
    match _h : readItem s with
    | none => none
    | some (i, rest) => (readItems rest).map (i :: ·)
termination_by s.length
decreasing_by exact length_readItem _h

/-- The class that a written form stands for, if it is well formed. -/
def ofPattern? (s : String) : Option CharClass := (readItems s.toList).map CharClass.mk

end CharClass

end TemplateMarkup
