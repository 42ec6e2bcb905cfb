import TemplateMarkup.Json.Reader

/-!
# Strings in quotes

How a string is written between quotes, how it is read, and how it is passed over.

## The model

All functions that read start behind the opening quote and take one character of the
string at a time, `none` standing for the closing quote. A string that is read has to
denote characters: a code point beyond the first 65536 is escaped as two surrogates, and
a surrogate without the other one is malformed. A string that is only passed over needs
four hexadecimal digits in such an escape, and no more is asked of it.

## What is proved

* `scanQuoted_eq` and `skipQuoted_eq` — how a string is read and passed over one character
  at a time.
-/

namespace TemplateMarkup

namespace Json

/-! ### Escapes -/

/-- The value of a hexadecimal digit, in either case. -/
def hexValue? (c : Char) : Option Nat :=
  if '0' ≤ c ∧ c ≤ '9' then some (c.toNat - '0'.toNat)
  else if 'a' ≤ c ∧ c ≤ 'f' then some (c.toNat - 'a'.toNat + 10)
  else if 'A' ≤ c ∧ c ≤ 'F' then some (c.toNat - 'A'.toNat + 10)
  else none

/-- The value of four hexadecimal digits. -/
def hexFour? (a b c d : Char) : Option Nat := do
  let a ← hexValue? a
  let b ← hexValue? b
  let c ← hexValue? c
  let d ← hexValue? d
  some (((a * 16 + b) * 16 + c) * 16 + d)

/-- Whether characters take at least `n` bytes in UTF-8. -/
def hasBytes : Nat → List Char → Bool
  | 0, _ => true
  | _ + 1, [] => false
  | n + 1, c :: s => hasBytes (n + 1 - c.utf8Size) s

/-- Takes four hexadecimal digits. A text with fewer than four bytes left is cut short,
whatever they are. -/
def scanHexFour : List Char → Reading Nat
  | a :: b :: c :: d :: s =>
    match hexFour? a b c d with
    | some n => .ok (n, s)
    | none => .error .malformed
  | s => .error (if hasBytes 4 s then .malformed else .cutShort)

/-- What the escapes of a single character stand for. -/
def shortEscape? (c : Char) : Option Char :=
  if c = '"' then some '"'
  else if c = '\\' then some '\\'
  else if c = '/' then some '/'
  else if c = 'b' then some '\x08'
  else if c = 'f' then some '\x0c'
  else if c = 'n' then some '\n'
  else if c = 'r' then some '\r'
  else if c = 't' then some '\t'
  else none

/-- Whether a number is the first of two surrogates. -/
def isLeading (n : Nat) : Bool := 0xd800 ≤ n && n < 0xdc00

/-- Whether a number is the second of two surrogates. -/
def isTrailing (n : Nat) : Bool := 0xdc00 ≤ n && n < 0xe000

/-- The code point that two surrogates stand for. -/
def joinSurrogates (n m : Nat) : Nat := 0x10000 + (n - 0xd800) * 0x400 + (m - 0xdc00)

/-- Takes the digits of a Unicode escape, and behind the first of two surrogates the whole
escape of the second one. -/
def scanUnicode (s : List Char) : Except Fault (Char × List Char) := do
  let (n, s) ← scanHexFour s
  if isTrailing n then .error .malformed
  else if isLeading n then do
    let s ← expect ['\\', 'u'] s
    let (m, s) ← scanHexFour s
    if isTrailing m then .ok (Char.ofNat (joinSurrogates n m), s) else .error .malformed
  else .ok (Char.ofNat n, s)

/-- Takes an escape behind its backslash. -/
def scanEscape : List Char → Except Fault (Char × List Char)
  | [] => .error .cutShort
  | c :: s =>
    if c = 'u' then scanUnicode s
    else
      match shortEscape? c with
      | some d => .ok (d, s)
      | none => .error .malformed

/-- Passes over an escape behind its backslash. -/
def skipEscape : List Char → Except Fault (List Char)
  | [] => .error .cutShort
  | c :: s =>
    if c = 'u' then (scanHexFour s).map (·.2)
    else
      match shortEscape? c with
      | some _ => .ok s
      | none => .error .malformed

theorem length_scanHexFour {s r : List Char} {n : Nat} (h : scanHexFour s = .ok (n, r)) :
    r.length < s.length := by
  unfold scanHexFour at h
  split at h
  · split at h
    · simp only [Except.ok.injEq, Prod.mk.injEq] at h
      simp only [List.length_cons, ← h.2]
      omega
    · simp at h
  · simp at h

theorem length_scanUnicode {s r : List Char} {c : Char} (h : scanUnicode s = .ok (c, r)) :
    r.length < s.length := by
  unfold scanUnicode at h
  cases h₁ : scanHexFour s with
  | error e => simp [h₁, bind, Except.bind] at h
  | ok x =>
    have l₁ := length_scanHexFour h₁
    simp only [h₁, bind, Except.bind] at h
    split at h
    · simp at h
    · split at h
      · cases h₂ : expect ['\\', 'u'] x.2 with
        | error e => simp [h₂] at h
        | ok y =>
          have l₂ := length_expect h₂
          simp only [h₂] at h
          cases h₃ : scanHexFour y with
          | error e => simp [h₃] at h
          | ok z =>
            have l₃ := length_scanHexFour h₃
            simp only [h₃] at h
            split at h
            · simp only [Except.ok.injEq, Prod.mk.injEq] at h
              rw [← h.2]
              omega
            · simp at h
      · simp only [Except.ok.injEq, Prod.mk.injEq] at h
        rw [← h.2]
        exact l₁

theorem length_scanEscape {s r : List Char} {c : Char} (h : scanEscape s = .ok (c, r)) :
    r.length < s.length := by
  cases s with
  | nil => simp [scanEscape] at h
  | cons d s =>
    simp only [scanEscape] at h
    split at h
    · have := length_scanUnicode h
      simp only [List.length_cons]
      omega
    · split at h
      · simp only [Except.ok.injEq, Prod.mk.injEq] at h
        simp [h.2]
      · simp at h

theorem length_skipEscape {s r : List Char} (h : skipEscape s = .ok r) :
    r.length < s.length := by
  cases s with
  | nil => simp [skipEscape] at h
  | cons d s =>
    simp only [skipEscape] at h
    split at h
    · cases h₁ : scanHexFour s with
      | error e => simp [h₁, Except.map] at h
      | ok x =>
        have := length_scanHexFour h₁
        simp only [h₁, Except.map, Except.ok.injEq] at h
        simp only [List.length_cons, ← h]
        omega
    · split at h
      · simp only [Except.ok.injEq] at h
        simp [h]
      · simp at h

/-! ### Characters -/

/-- Takes the next character of a string; `none` is the closing quote. -/
def nextChar : List Char → Reading (Option Char)
  | [] => .error .cutShort
  | c :: s =>
    if c = '"' then .ok (none, s)
    else if c = '\\' then (scanEscape s).map fun (d, r) => (some d, r)
    else if c < ' ' then .error .malformed
    else .ok (some c, s)

/-- Passes over the next character of a string: whether there was one, or the closing
quote. -/
def skipChar : List Char → Reading Bool
  | [] => .error .cutShort
  | c :: s =>
    if c = '"' then .ok (false, s)
    else if c = '\\' then (skipEscape s).map fun r => (true, r)
    else if c < ' ' then .error .malformed
    else .ok (true, s)

theorem length_nextChar {s r : List Char} {c : Option Char} (h : nextChar s = .ok (c, r)) :
    r.length < s.length := by
  cases s with
  | nil => simp [nextChar] at h
  | cons d s =>
    simp only [nextChar] at h
    split at h
    · simp only [Except.ok.injEq, Prod.mk.injEq] at h
      simp [h.2]
    · split at h
      · cases h₁ : scanEscape s with
        | error e => simp [h₁, Except.map] at h
        | ok x =>
          have := length_scanEscape h₁
          simp only [h₁, Except.map, Except.ok.injEq, Prod.mk.injEq] at h
          simp only [List.length_cons, ← h.2]
          omega
      · split at h
        · simp at h
        · simp only [Except.ok.injEq, Prod.mk.injEq] at h
          simp [h.2]

theorem length_skipChar {s r : List Char} {b : Bool} (h : skipChar s = .ok (b, r)) :
    r.length < s.length := by
  cases s with
  | nil => simp [skipChar] at h
  | cons d s =>
    simp only [skipChar] at h
    split at h
    · simp only [Except.ok.injEq, Prod.mk.injEq] at h
      simp [h.2]
    · split at h
      · cases h₁ : skipEscape s with
        | error e => simp [h₁, Except.map] at h
        | ok x =>
          have := length_skipEscape h₁
          simp only [h₁, Except.map, Except.ok.injEq, Prod.mk.injEq] at h
          simp only [List.length_cons, ← h.2]
          omega
      · split at h
        · simp at h
        · simp only [Except.ok.injEq, Prod.mk.injEq] at h
          simp [h.2]

/-! ### Strings -/

/-- Reads a string up to its closing quote. -/
def scanQuoted (s : List Char) : Reading (List Char) :=
  match _h : nextChar s with
  | .error e => .error e
  | .ok (none, r) => .ok ([], r)
  | .ok (some c, r) => (scanQuoted r).map fun (cs, r) => (c :: cs, r)
termination_by s.length
decreasing_by exact length_nextChar _h

/-- Passes over a string up to its closing quote. -/
def skipQuoted (s : List Char) : Except Fault (List Char) :=
  match _h : skipChar s with
  | .error e => .error e
  | .ok (false, r) => .ok r
  | .ok (true, r) => skipQuoted r
termination_by s.length
decreasing_by exact length_skipChar _h

/-- Reading a string, one character at a time. -/
theorem scanQuoted_eq (s : List Char) :
    scanQuoted s =
      match nextChar s with
      | .error e => .error e
      | .ok (none, r) => .ok ([], r)
      | .ok (some c, r) => (scanQuoted r).map fun (cs, r) => (c :: cs, r) := by
  rw [scanQuoted]
  split <;> rename_i h <;> simp only [h]

/-- Passing over a string, one character at a time. -/
theorem skipQuoted_eq (s : List Char) :
    skipQuoted s =
      match skipChar s with
      | .error e => .error e
      | .ok (false, r) => .ok r
      | .ok (true, r) => skipQuoted r := by
  rw [skipQuoted]
  split <;> rename_i h <;> simp only [h]

theorem length_scanQuoted {s cs r : List Char} (h : scanQuoted s = .ok (cs, r)) :
    r.length < s.length := by
  fun_induction scanQuoted s generalizing cs with
  | case1 s e _ => simp at h
  | case2 s t ht =>
    simp only [Except.ok.injEq, Prod.mk.injEq] at h
    rw [← h.2]
    exact length_nextChar ht
  | case3 s c t ht ih =>
    have := length_nextChar ht
    cases hq : scanQuoted t with
    | error e => simp [hq, Except.map] at h
    | ok x =>
      simp only [hq, Except.map, Except.ok.injEq, Prod.mk.injEq] at h
      have := @ih x.1 (by rw [hq, ← h.2])
      omega

theorem length_skipQuoted {s r : List Char} (h : skipQuoted s = .ok r) :
    r.length < s.length := by
  fun_induction skipQuoted s with
  | case1 s e _ => simp at h
  | case2 s t ht =>
    rw [← Except.ok.inj h]
    exact length_skipChar ht
  | case3 s t ht ih =>
    have := length_skipChar ht
    have := ih h
    omega

/-! ### Writing -/

/-- How a character is written between quotes: quotes, backslashes and the characters below
U+0020 are escaped, with a letter where there is one. -/
def escape (c : Char) : List Char :=
  if c = '"' then ['\\', '"']
  else if c = '\\' then ['\\', '\\']
  else if c = '\x08' then ['\\', 'b']
  else if c = '\x0c' then ['\\', 'f']
  else if c = '\n' then ['\\', 'n']
  else if c = '\r' then ['\\', 'r']
  else if c = '\t' then ['\\', 't']
  else if c < ' ' then
    ['\\', 'u', '0', '0', Nat.digitChar (c.toNat / 16), Nat.digitChar (c.toNat % 16)]
  else [c]

/-- A string as it is written. -/
def quote (s : String) : List Char := '"' :: s.toList.flatMap escape ++ ['"']

end Json

end TemplateMarkup
