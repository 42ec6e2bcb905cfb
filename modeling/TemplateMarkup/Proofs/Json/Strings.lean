import TemplateMarkup.Proofs.Json.Grammar
import Mathlib.Data.Char

/-!
# Strings are read as they are spelled

What is between quotes is read as the characters it spells, in whichever of the ways that the
grammar has for each of them, and the spelling that is chosen for writing is one of those. A
string that nobody asks for only has to be well formed to be passed over.

## What is proved

* `nextChar_append` and `scanQuoted_append` — a character and a string are read as what they are
  spelled for, and reading stops where the spelling ends.
* `skipChar_append` and `skipQuoted_append` — the same for passing over a string.
* `spells_flatMap_escape` — what is written is a spelling.
-/

namespace TemplateMarkup

namespace Json

/-! ### Hexadecimal digits -/

theorem hexValue?_of_hexDigit {n : Nat} {c : Char} (h : HexDigit n c) : hexValue? c = some n := by
  have values : ∀ digits ∈ ["0123456789abcdef".toList, "0123456789ABCDEF".toList],
      ∀ i < digits.length, digits[i]?.bind hexValue? = some i := by decide
  rcases h with h | h
  · have value := values _ (by simp) n (List.getElem?_eq_some_iff.1 h).1
    rwa [h] at value
  · have value := values _ (by simp) n (List.getElem?_eq_some_iff.1 h).1
    rwa [h] at value

theorem scanHexFour_append {n : Nat} {s : List Char} (h : HexFour n s) (t : List Char) :
    scanHexFour (s ++ t) = .ok (n, t) := by
  obtain @⟨i, j, k, l, a, b, c, d, ha, hb, hc, hd⟩ := h
  have value : hexFour? a b c d = some (0x1000 * i + 0x100 * j + 0x10 * k + l) := by
    simp only [hexFour?, hexValue?_of_hexDigit ha, hexValue?_of_hexDigit hb,
      hexValue?_of_hexDigit hc, hexValue?_of_hexDigit hd, bind, Option.bind, Option.some.injEq]
    omega
  simp only [List.cons_append, List.nil_append, scanHexFour, value]

/-- The digits that are written have their values. -/
theorem hexDigit_digitChar {n : Nat} (h : n < 16) : HexDigit n (Nat.digitChar n) := by
  have digits : ∀ i < 16, "0123456789abcdef".toList[i]? = some (Nat.digitChar i) := by decide
  exact .inl (digits n h)

/-! ### Escapes -/

theorem shortEscape?_of_mem {e c : Char} (h : (e, c) ∈ shortEscapes) :
    shortEscape? e = some c ∧ e ≠ 'u' := by
  have table : ∀ p ∈ shortEscapes, shortEscape? p.1 = some p.2 ∧ p.1 ≠ 'u' := by decide
  exact table (e, c) h

/-- No character is a surrogate. -/
theorem not_surrogate (c : Char) : isTrailing c.toNat = false ∧ isLeading c.toNat = false := by
  have valid : c.toNat < 0xd800 ∨ 0xdfff < c.toNat ∧ c.toNat < 0x110000 := c.valid
  simp only [isTrailing, isLeading, Bool.and_eq_false_iff, decide_eq_false_iff_not]
  omega

theorem joinSurrogates_add (i j : Nat) :
    joinSurrogates (0xd800 + i) (0xdc00 + j) = 0x10000 + (0x400 * i + j) := by
  unfold joinSurrogates
  omega

/-- A character beyond the first 65536 is taken apart into two surrogates and put together
again. -/
theorem joinSurrogates_split {c : Char} (h : 0x10000 ≤ c.toNat) :
    isTrailing (0xd800 + (c.toNat - 0x10000) / 0x400) = false ∧
      isLeading (0xd800 + (c.toNat - 0x10000) / 0x400) = true ∧
      isTrailing (0xdc00 + (c.toNat - 0x10000) % 0x400) = true ∧
      joinSurrogates (0xd800 + (c.toNat - 0x10000) / 0x400)
        (0xdc00 + (c.toNat - 0x10000) % 0x400) = c.toNat := by
  have valid : c.toNat < 0xd800 ∨ 0xdfff < c.toNat ∧ c.toNat < 0x110000 := c.valid
  obtain ⟨n, hn⟩ : ∃ n, c.toNat = 0x10000 + n := ⟨c.toNat - 0x10000, by omega⟩
  rw [hn, Nat.add_sub_cancel_left]
  have small : n / 0x400 < 0x400 := by omega
  refine ⟨?_, ?_, ?_, ?_⟩
  · simp only [isTrailing, Bool.and_eq_false_iff, decide_eq_false_iff_not]
    omega
  · simp only [isLeading, Bool.and_eq_true, decide_eq_true_eq]
    omega
  · simp only [isTrailing, Bool.and_eq_true, decide_eq_true_eq]
    omega
  · rw [joinSurrogates_add, Nat.div_add_mod]

theorem scanUnicode_unit {c : Char} {s : List Char} (h : HexFour c.toNat s) (t : List Char) :
    scanUnicode (s ++ t) = .ok (c, t) := by
  obtain ⟨notTrailing, notLeading⟩ := not_surrogate c
  simp [scanUnicode, scanHexFour_append h, bind, Except.bind, notTrailing, notLeading]

theorem scanUnicode_pair {c : Char} {s t : List Char} (h : 0x10000 ≤ c.toNat)
    (hs : HexFour (0xd800 + (c.toNat - 0x10000) / 0x400) s)
    (ht : HexFour (0xdc00 + (c.toNat - 0x10000) % 0x400) t) (u : List Char) :
    scanUnicode (s ++ '\\' :: 'u' :: (t ++ u)) = .ok (c, u) := by
  obtain ⟨notTrailing, leading, trailing, joined⟩ := joinSurrogates_split h
  have escape : expect ['\\', 'u'] ('\\' :: 'u' :: (t ++ u)) = .ok (t ++ u) := expect_append _ _
  simp [scanUnicode, scanHexFour_append hs, scanHexFour_append ht, escape, bind, Except.bind,
    notTrailing, leading, trailing, joined]

/-! ### Reading -/

/-- A character is read as what it is spelled for. -/
theorem nextChar_append {c : Char} {s : List Char} (h : SpellsChar c s) (t : List Char) :
    nextChar (s ++ t) = .ok (some c, t) := by
  cases h with
  | plain h =>
    obtain ⟨high, quote, backslash⟩ := h
    have low : ¬ c < ' ' := Char.not_lt.2 high
    simp [nextChar, quote, backslash, low]
  | short h =>
    obtain ⟨known, notUnicode⟩ := shortEscape?_of_mem h
    simp [nextChar, scanEscape, notUnicode, known, Except.map]
  | unit h => simp [nextChar, scanEscape, scanUnicode_unit h, Except.map]
  | pair hc hs ht => simp [nextChar, scanEscape, scanUnicode_pair hc hs ht, Except.map]

/-- A string is read as what it is spelled for, up to its closing quote. -/
theorem scanQuoted_append {cs s : List Char} (h : Spells cs s) (t : List Char) :
    scanQuoted (s ++ '"' :: t) = .ok (cs, t) := by
  induction h with
  | nil => simp [scanQuoted_eq, nextChar]
  | cons hc _ ih =>
    rw [List.append_assoc, scanQuoted_eq, nextChar_append hc]
    simp only [ih, Except.map]

/-! ### Passing over -/

theorem skipChar_append {s : List Char} (h : IsStringPiece s) (t : List Char) :
    skipChar (s ++ t) = .ok (true, t) := by
  cases h with
  | plain h =>
    obtain ⟨high, quote, backslash⟩ := h
    simp [skipChar, quote, backslash, Char.not_lt.2 high]
  | short h =>
    obtain ⟨known, notUnicode⟩ := shortEscape?_of_mem h
    simp [skipChar, skipEscape, notUnicode, known, Except.map]
  | unit h => simp [skipChar, skipEscape, scanHexFour_append h, Except.map]

/-- A well-formed string is passed over up to its closing quote. -/
theorem skipQuoted_append {s : List Char} (h : IsString s) (t : List Char) :
    skipQuoted (s ++ '"' :: t) = .ok t := by
  induction h with
  | nil => simp [skipQuoted_eq, skipChar]
  | cons hs _ ih =>
    rw [List.append_assoc, skipQuoted_eq, skipChar_append hs]
    exact ih

/-- What spells a string is well formed. -/
theorem Spells.isString {cs s : List Char} (h : Spells cs s) : IsString s := by
  induction h with
  | nil => exact .nil
  | @cons c cs s t first _ ih =>
    cases first with
    | plain h => exact .cons (.plain h) ih
    | short h => exact .cons (.short h) ih
    | unit h => exact .cons (.unit h) ih
    | pair _ high low =>
      rw [List.append_assoc]
      exact .cons (.unit high) (.cons (.unit low) ih)

/-! ### Writing -/

/-- The escape of a character that has no letter. -/
theorem spellsChar_control {c : Char} (h : c < ' ') :
    SpellsChar c
      ['\\', 'u', '0', '0', Nat.digitChar (c.toNat / 16), Nat.digitChar (c.toNat % 16)] := by
  have low : c.toNat < 32 := h
  have zero : HexDigit 0 '0' := hexDigit_digitChar (by omega)
  have high := hexDigit_digitChar (n := c.toNat / 16) (by omega)
  have last := hexDigit_digitChar (n := c.toNat % 16) (by omega)
  have value : c.toNat = 0x1000 * 0 + 0x100 * 0 + 0x10 * (c.toNat / 16) + c.toNat % 16 := by omega
  have digits := HexFour.digits zero zero high last
  rw [← value] at digits
  exact .unit digits

/-- A character is written in one of the ways to spell it. -/
theorem spellsChar_escape (c : Char) : SpellsChar c (escape c) := by
  unfold escape
  split_ifs with quote backslash backspace formFeed lineFeed carriageReturn tab low
  · rw [quote]
    exact .short (by decide)
  · rw [backslash]
    exact .short (by decide)
  · rw [backspace]
    exact .short (by decide)
  · rw [formFeed]
    exact .short (by decide)
  · rw [lineFeed]
    exact .short (by decide)
  · rw [carriageReturn]
    exact .short (by decide)
  · rw [tab]
    exact .short (by decide)
  · exact spellsChar_control low
  · exact .plain ⟨Char.not_lt.1 low, quote, backslash⟩

/-- A string is written in one of the ways to spell it. -/
theorem spells_flatMap_escape (cs : List Char) : Spells cs (cs.flatMap escape) := by
  induction cs with
  | nil => exact .nil
  | cons c cs ih =>
    rw [List.flatMap_cons]
    exact .cons (spellsChar_escape c) ih

end Json

end TemplateMarkup
