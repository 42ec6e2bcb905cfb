import TemplateMarkup.Json.Numeral
import TemplateMarkup.Json.Quoted

/-!
# Passing over values

A member that nobody asks for is passed over with its whole value, however deep the value
is nested and however large its numbers are. What is passed over still has to be
well-formed.

## The model

`skipFrom` keeps the brackets that are open on a stack, so that the depth of a value is
bounded by nothing. It stands before a value, behind an opening bracket, or behind a
value, and takes at least one character of the text for each value and each bracket.

## What is proved

* `skipFrom_before`, `skipFrom_opened`, `skipFrom_after`, `skipFrom_nil_after` — what
  happens in each of these places, so that nothing else looks into `skipFrom`.
-/

namespace TemplateMarkup

namespace Json

/-- Passes over a numeral, whatever its size. One that breaks off at the end of the text is
malformed. -/
def skipNumeral (s : List Char) : Except Fault (List Char) :=
  (scanNumeral .malformed s).map (·.2)

/-- Passes over a value that is neither an array nor an object. -/
def skipScalar : List Char → Except Fault (List Char)
  | [] => .error .cutShort
  | c :: s =>
    if c = 'n' then expect ['u', 'l', 'l'] s
    else if c = 't' then expect ['r', 'u', 'e'] s
    else if c = 'f' then expect ['a', 'l', 's', 'e'] s
    else if c = '"' then skipQuoted s
    else if c = '-' ∨ c.isDigit then skipNumeral (c :: s)
    else .error .malformed

/-- Passes over the name of a member and the colon behind it. -/
def skipName (s : List Char) : Except Fault (List Char) :=
  match dropBlanks s with
  | [] => .error .cutShort
  | c :: r => if c = '"' then (skipQuoted r).bind colon else .error .malformed

/-- The two kinds of bracket. -/
inductive Bracket where
  /-- The brackets of an array. -/
  | square
  /-- The braces of an object. -/
  | curly
  deriving DecidableEq

namespace Bracket

/-- The character that closes a bracket. -/
def closer : Bracket → Char
  | square => ']'
  | curly => '}'

/-- Passes over what stands between a bracket or a comma and a value: a name in an object,
nothing in an array. -/
def skipLead : Bracket → List Char → Except Fault (List Char)
  | square, s => .ok s
  | curly, s => skipName s

end Bracket

/-- Where a value is being passed over. -/
inductive SkipState where
  /-- Before a value. -/
  | before
  /-- Behind the innermost opening bracket. -/
  | opened
  /-- Behind a value. -/
  | after
  deriving DecidableEq

/-! ### Progress -/

theorem length_skipNumeral {s r : List Char} (h : skipNumeral s = .ok r) :
    r.length < s.length := by
  unfold skipNumeral at h
  cases hn : scanNumeral .malformed s with
  | error e => simp [hn, Except.map] at h
  | ok x =>
    simp only [hn, Except.map, Except.ok.injEq] at h
    rw [← h]
    exact length_scanNumeral hn

theorem length_skipScalar {s r : List Char} (h : skipScalar s = .ok r) :
    r.length < s.length := by
  cases s with
  | nil => simp [skipScalar] at h
  | cons c s =>
    simp only [skipScalar] at h
    split at h
    · have := length_expect h
      simp only [List.length_cons]
      omega
    · split at h
      · have := length_expect h
        simp only [List.length_cons]
        omega
      · split at h
        · have := length_expect h
          simp only [List.length_cons]
          omega
        · split at h
          · have := length_skipQuoted h
            simp only [List.length_cons]
            omega
          · split at h
            · exact length_skipNumeral h
            · simp at h

theorem length_skipName {s r : List Char} (h : skipName s = .ok r) : r.length < s.length := by
  unfold skipName at h
  split at h
  · simp at h
  · rename_i c t ht
    have l₁ := length_lt_of_dropBlanks ht
    split at h
    · cases hq : skipQuoted t with
      | error e => simp [hq, Except.bind] at h
      | ok u =>
        have l₂ := length_skipQuoted hq
        simp only [hq, Except.bind] at h
        have l₃ := length_colon h
        omega
    · simp at h

theorem Bracket.length_skipLead {b : Bracket} {s r : List Char} (h : b.skipLead s = .ok r) :
    r.length ≤ s.length := by
  cases b with
  | square => simp only [skipLead, Except.ok.injEq] at h; simp [h]
  | curly => exact Nat.le_of_lt (length_skipName h)

/-- What bounds the number of steps that passing over a value takes from here. -/
def skipMeasure (state : SkipState) (s : List Char) : Nat :=
  2 * s.length + if state = .opened then 1 else 0

/-! ### Values -/

/-- Passes over the rest of a value, inside the brackets `stack`. -/
def skipFrom (stack : List Bracket) (state : SkipState) (s : List Char) :
    Except Fault (List Char) :=
  match state with
  | .before =>
    match _h : dropBlanks s with
    | [] => .error .cutShort
    | c :: r =>
      if c = '[' then skipFrom (.square :: stack) .opened r
      else if c = '{' then skipFrom (.curly :: stack) .opened r
      else
        match _hs : skipScalar (c :: r) with
        | .error e => .error e
        | .ok r => skipFrom stack .after r
  | .opened =>
    match stack with
    | [] => .ok s
    | b :: outer =>
      match _h : dropBlanks s with
      | [] => .error .cutShort
      | c :: r =>
        if c = b.closer then skipFrom outer .after r
        else
          match _hl : b.skipLead (c :: r) with
          | .error e => .error e
          | .ok r => skipFrom (b :: outer) .before r
  | .after =>
    match stack with
    | [] => .ok s
    | b :: outer =>
      match _h : dropBlanks s with
      | [] => .error .cutShort
      | c :: r =>
        if c = b.closer then skipFrom outer .after r
        else if c = ',' then
          match _hl : b.skipLead r with
          | .error e => .error e
          | .ok r => skipFrom (b :: outer) .before r
        else .error .malformed
termination_by skipMeasure state s
decreasing_by
  all_goals
    have l := length_lt_of_dropBlanks _h
    simp only [skipMeasure, reduceCtorEq, if_true, if_false]
  · omega
  · omega
  · have := length_skipScalar _hs
    simp only [List.length_cons] at this
    omega
  · omega
  · have := Bracket.length_skipLead _hl
    simp only [List.length_cons] at this
    omega
  · omega
  · have := Bracket.length_skipLead _hl
    omega

/-! ### One step at a time -/

/-- Before a value: an opening bracket, or a value without one. -/
theorem skipFrom_before (stack : List Bracket) (s : List Char) :
    skipFrom stack .before s =
      match dropBlanks s with
      | [] => .error .cutShort
      | c :: r =>
        if c = '[' then skipFrom (.square :: stack) .opened r
        else if c = '{' then skipFrom (.curly :: stack) .opened r
        else (skipScalar (c :: r)).bind (skipFrom stack .after) := by
  rw [skipFrom]
  split <;> rename_i h <;> simp only [h]
  split
  · rfl
  · split
    · rfl
    · split <;> rename_i h <;> simp only [h, Except.bind]

/-- Behind an opening bracket: the closing one, or the first value. -/
theorem skipFrom_opened (b : Bracket) (outer : List Bracket) (s : List Char) :
    skipFrom (b :: outer) .opened s =
      match dropBlanks s with
      | [] => .error .cutShort
      | c :: r =>
        if c = b.closer then skipFrom outer .after r
        else (b.skipLead (c :: r)).bind (skipFrom (b :: outer) .before) := by
  rw [skipFrom]
  split <;> rename_i h <;> simp only [h]
  split
  · rfl
  · split <;> rename_i h <;> simp only [h, Except.bind]

/-- Behind a value inside a bracket: the closing bracket, or a comma and another value. -/
theorem skipFrom_after (b : Bracket) (outer : List Bracket) (s : List Char) :
    skipFrom (b :: outer) .after s =
      match dropBlanks s with
      | [] => .error .cutShort
      | c :: r =>
        if c = b.closer then skipFrom outer .after r
        else if c = ',' then (b.skipLead r).bind (skipFrom (b :: outer) .before)
        else .error .malformed := by
  rw [skipFrom]
  split <;> rename_i h <;> simp only [h]
  split
  · rfl
  · split
    · split <;> rename_i h <;> simp only [h, Except.bind]
    · rfl

/-- Behind a value outside of all brackets there is nothing left to pass over. -/
theorem skipFrom_nil_after (s : List Char) : skipFrom [] .after s = .ok s := by
  rw [skipFrom]

/-! ### Whole values -/

/-- Passes over a value. -/
def skipValue (s : List Char) : Except Fault (List Char) := skipFrom [] .before s

theorem length_skipFrom {stack : List Bracket} {state : SkipState} {s r : List Char}
    (h : skipFrom stack state s = .ok r) : r.length ≤ s.length := by
  fun_induction skipFrom stack state s with
  | case1 => simp at h
  | case2 _ s t hs ih =>
    have := length_lt_of_dropBlanks hs
    have := ih h
    omega
  | case3 _ s t hs _ ih =>
    have := length_lt_of_dropBlanks hs
    have := ih h
    omega
  | case4 => simp at h
  | case5 _ s c t hs _ _ u hu ih =>
    have := length_lt_of_dropBlanks hs
    have := length_skipScalar hu
    have := ih h
    simp only [List.length_cons] at *
    omega
  | case6 s => simp only [Except.ok.injEq] at h; simp [h]
  | case7 => simp at h
  | case8 s b _ t hs ih =>
    have := length_lt_of_dropBlanks hs
    have := ih h
    omega
  | case9 => simp at h
  | case10 s b _ c t hs _ u hu ih =>
    have := length_lt_of_dropBlanks hs
    have := Bracket.length_skipLead hu
    have := ih h
    simp only [List.length_cons] at *
    omega
  | case11 s => simp only [Except.ok.injEq] at h; simp [h]
  | case12 => simp at h
  | case13 s b _ t hs ih =>
    have := length_lt_of_dropBlanks hs
    have := ih h
    omega
  | case14 => simp at h
  | case15 _ _ _ t u hu hs _ ih =>
    have := length_lt_of_dropBlanks hs
    have := Bracket.length_skipLead hu
    have := ih h
    omega
  | case16 => simp at h

/-- Passing over a value leaves no more than there was. -/
theorem length_skipValue {s r : List Char} (h : skipValue s = .ok r) : r.length ≤ s.length :=
  length_skipFrom h

end Json

end TemplateMarkup
