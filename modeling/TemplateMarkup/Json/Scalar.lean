import TemplateMarkup.Json.Skip

/-!
# Single values

Readers of truth values, counters and strings, and what is said of a value of another
kind.

## The model

A value of another kind is itself read before it is refused: if it is broken, that is
what is wrong with the text, and only a sound one is a mismatch. Of an array or an object
the opening bracket is enough.
-/

namespace TemplateMarkup

namespace Json

/-! ### Values of another kind -/

/-- What is wrong with a value that is not wanted, once it has been read. -/
def mismatchAfter {α : Type} : Except Fault α → Fault
  | .ok _ => .mismatched
  | .error e => e

/-- A number as a value: it must not be too large. -/
def scanNumber (s : List Char) : Reading Numeral :=
  match scanNumeral .cutShort s with
  | .error e => .error e
  | .ok (n, r) => if n.isTooLarge then .error .malformed else .ok (n, r)

/-- What is wrong with the text if another kind of value is wanted here. -/
def mismatch : List Char → Fault
  | [] => .cutShort
  | c :: s =>
    if c = 'n' then mismatchAfter (expect ['u', 'l', 'l'] s)
    else if c = 't' then mismatchAfter (expect ['r', 'u', 'e'] s)
    else if c = 'f' then mismatchAfter (expect ['a', 'l', 's', 'e'] s)
    else if c = '"' then mismatchAfter (scanQuoted s)
    else if c = '-' ∨ c.isDigit then mismatchAfter (scanNumber (c :: s))
    else if c = '[' ∨ c = '{' then .mismatched
    else .malformed

/-! ### Readers -/

/-- Reads `true` or `false`. -/
def scanBool (s : List Char) : Reading Bool :=
  match dropBlanks s with
  | [] => .error .cutShort
  | c :: r =>
    if c = 't' then (expect ['r', 'u', 'e'] r).map fun r => (true, r)
    else if c = 'f' then (expect ['a', 'l', 's', 'e'] r).map fun r => (false, r)
    else .error (mismatch (c :: r))

/-- Reads a whole number of 64 bits, written with digits alone. -/
def scanCounter (s : List Char) : Reading UInt64 :=
  match dropBlanks s with
  | [] => .error .cutShort
  | c :: r =>
    if c = '-' ∨ c.isDigit then
      match scanNumber (c :: r) with
      | .error e => .error e
      | .ok (n, r) =>
        match n.natural? with
        | some k => if k < UInt64.size then .ok (UInt64.ofNat k, r) else .error .mismatched
        | none => .error .mismatched
    else .error (mismatch (c :: r))

/-- Reads a string. -/
def scanString (s : List Char) : Reading String :=
  match dropBlanks s with
  | [] => .error .cutShort
  | c :: r =>
    if c = '"' then (scanQuoted r).map fun (cs, r) => (String.ofList cs, r)
    else .error (mismatch (c :: r))

/-- Reads `null`. -/
def scanNull (s : List Char) : Except Fault (List Char) :=
  match dropBlanks s with
  | [] => .error .cutShort
  | c :: r => if c = 'n' then expect ['u', 'l', 'l'] r else .error (mismatch (c :: r))

/-- Reads a string, or `null` for none. -/
def scanOptional (s : List Char) : Reading (Option String) :=
  match dropBlanks s with
  | [] => .error .cutShort
  | c :: r =>
    if c = 'n' then (expect ['u', 'l', 'l'] r).map fun r => (none, r)
    else (scanString (c :: r)).map fun (t, r) => (some t, r)

/-! ### Progress -/

theorem length_scanNumber {s r : List Char} {n : Numeral} (h : scanNumber s = .ok (n, r)) :
    r.length < s.length := by
  unfold scanNumber at h
  split at h
  · simp at h
  · rename_i hn
    split at h
    · simp at h
    · simp only [Except.ok.injEq, Prod.mk.injEq] at h
      rw [← h.2]
      exact length_scanNumeral hn

theorem length_scanBool {s r : List Char} {b : Bool} (h : scanBool s = .ok (b, r)) :
    r.length < s.length := by
  unfold scanBool at h
  split at h
  · simp at h
  · rename_i c t ht
    have l := length_lt_of_dropBlanks ht
    split at h
    · cases he : expect ['r', 'u', 'e'] t with
      | error e => simp [he, Except.map] at h
      | ok u =>
        have := length_expect he
        simp only [he, Except.map, Except.ok.injEq, Prod.mk.injEq] at h
        rw [← h.2]
        omega
    · split at h
      · cases he : expect ['a', 'l', 's', 'e'] t with
        | error e => simp [he, Except.map] at h
        | ok u =>
          have := length_expect he
          simp only [he, Except.map, Except.ok.injEq, Prod.mk.injEq] at h
          rw [← h.2]
          omega
      · simp at h

theorem length_scanCounter {s r : List Char} {n : UInt64} (h : scanCounter s = .ok (n, r)) :
    r.length < s.length := by
  unfold scanCounter at h
  split at h
  · simp at h
  · rename_i c t ht
    have l := length_lt_of_dropBlanks ht
    split at h
    · split at h
      · simp at h
      · rename_i hn
        have := length_scanNumber hn
        split at h
        · split at h
          · simp only [Except.ok.injEq, Prod.mk.injEq] at h
            simp only [List.length_cons] at this
            rw [← h.2]
            omega
          · simp at h
        · simp at h
    · simp at h

theorem length_scanString {s r : List Char} {t : String} (h : scanString s = .ok (t, r)) :
    r.length < s.length := by
  unfold scanString at h
  split at h
  · simp at h
  · rename_i c u hu
    have l := length_lt_of_dropBlanks hu
    split at h
    · cases hq : scanQuoted u with
      | error e => simp [hq, Except.map] at h
      | ok x =>
        have := length_scanQuoted hq
        simp only [hq, Except.map, Except.ok.injEq, Prod.mk.injEq] at h
        rw [← h.2]
        omega
    · simp at h

theorem length_scanNull {s r : List Char} (h : scanNull s = .ok r) : r.length < s.length := by
  unfold scanNull at h
  split at h
  · simp at h
  · rename_i c t ht
    have l := length_lt_of_dropBlanks ht
    split at h
    · have := length_expect h
      omega
    · simp at h

theorem length_scanOptional {s r : List Char} {o : Option String}
    (h : scanOptional s = .ok (o, r)) : r.length < s.length := by
  unfold scanOptional at h
  split at h
  · simp at h
  · rename_i c t ht
    have l := length_lt_of_dropBlanks ht
    split at h
    · cases he : expect ['u', 'l', 'l'] t with
      | error e => simp [he, Except.map] at h
      | ok u =>
        have := length_expect he
        simp only [he, Except.map, Except.ok.injEq, Prod.mk.injEq] at h
        rw [← h.2]
        omega
    · cases hs : scanString (c :: t) with
      | error e => simp [hs, Except.map] at h
      | ok x =>
        have := length_scanString hs
        simp only [hs, Except.map, Except.ok.injEq, Prod.mk.injEq] at h
        simp only [List.length_cons] at this
        rw [← h.2]
        omega

namespace Reader

/-- The reader of truth values. -/
def bool : Reader Bool := ⟨scanBool, fun h => Nat.le_of_lt (length_scanBool h)⟩

/-- The reader of whole numbers of 64 bits. -/
def counter : Reader UInt64 := ⟨scanCounter, fun h => Nat.le_of_lt (length_scanCounter h)⟩

/-- The reader of strings. -/
def string : Reader String := ⟨scanString, fun h => Nat.le_of_lt (length_scanString h)⟩

/-- The reader of strings that may be missing. -/
def optional : Reader (Option String) :=
  ⟨scanOptional, fun h => Nat.le_of_lt (length_scanOptional h)⟩

end Reader

end Json

end TemplateMarkup
