import TemplateMarkup.Json.Reader

/-!
# Numerals

How a JSON number is written, what counts as a whole number of 64 bits, and which
numbers are too large to be read at all.

## The model

`scanNumeral` takes a numeral apart into its digits and decides nothing about its value.
A reader that wants a whole number accepts one only if it is written with digits alone
and fits into 64 bits. Every other number stands for a binary floating-point number of
double precision: it is read with the leading digits that fit into 64 bits, times a power
of ten, both rounded to 53 binary digits, and `Numeral.isTooLarge` says that their product
is past the largest finite one.
-/

namespace TemplateMarkup

namespace Json

/-! ### The written form -/

/-- A numeral as it is written. -/
structure Numeral where
  /-- Whether it starts with a minus sign. -/
  negative : Bool
  /-- The digits before the point. -/
  whole : List Char
  /-- The digits behind the point, if there is one. -/
  fraction : Option (List Char)
  /-- Whether the exponent has a minus sign, and its digits, if there is one. -/
  exponent : Option (Bool × List Char)
  deriving DecidableEq

/-- Takes digits, at least one. A numeral that breaks off at the end of the text gives
`atEnd`, and one that goes on otherwise is malformed. -/
def scanDigits (atEnd : Fault) (s : List Char) : Reading (List Char) :=
  match s.takeWhile Char.isDigit with
  | [] => .error (if s = [] then atEnd else .malformed)
  | d :: ds => .ok (d :: ds, s.dropWhile Char.isDigit)

/-- Takes the digits before the point: a single zero, or digits that do not start with
one. -/
def scanWhole (atEnd : Fault) (s : List Char) : Reading (List Char) :=
  match scanDigits atEnd s with
  | .error e => .error e
  | .ok (ds, r) => if ds.head? = some '0' ∧ 1 < ds.length then .error .malformed else .ok (ds, r)

/-- Takes a point and the digits behind it, if there is a point. -/
def scanFraction (atEnd : Fault) : List Char → Reading (Option (List Char))
  | [] => .ok (none, [])
  | c :: s =>
    if c = '.' then (scanDigits atEnd s).map fun (ds, r) => (some ds, r)
    else .ok (none, c :: s)

/-- Takes the sign of an exponent: whether it is a minus sign. -/
def scanSign : List Char → Bool × List Char
  | [] => (false, [])
  | c :: s => if c = '-' then (true, s) else if c = '+' then (false, s) else (false, c :: s)

/-- Takes an exponent, if there is one. -/
def scanExponent (atEnd : Fault) : List Char → Reading (Option (Bool × List Char))
  | [] => .ok (none, [])
  | c :: s =>
    if c = 'e' ∨ c = 'E' then
      (scanDigits atEnd (scanSign s).2).map fun (ds, r) => (some ((scanSign s).1, ds), r)
    else .ok (none, c :: s)

/-- Takes a minus sign, if there is one. -/
def scanMinus : List Char → Bool × List Char
  | [] => (false, [])
  | c :: s => if c = '-' then (true, s) else (false, c :: s)

/-- Takes a numeral. -/
def scanNumeral (atEnd : Fault) (s : List Char) : Except Fault (Numeral × List Char) := do
  let (negative, s) := scanMinus s
  let (whole, s) ← scanWhole atEnd s
  let (fraction, s) ← scanFraction atEnd s
  let (exponent, s) ← scanExponent atEnd s
  .ok (⟨negative, whole, fraction, exponent⟩, s)

/-! ### The rest is shorter -/

theorem length_scanDigits {atEnd : Fault} {s ds r : List Char}
    (h : scanDigits atEnd s = .ok (ds, r)) : r.length < s.length := by
  unfold scanDigits at h
  split at h
  · simp at h
  · rename_i d ds' ht
    simp only [Except.ok.injEq, Prod.mk.injEq] at h
    have := congrArg List.length (List.takeWhile_append_dropWhile (p := Char.isDigit) (l := s))
    rw [ht] at this
    simp only [List.length_append, List.length_cons] at this
    rw [← h.2]
    omega

theorem length_scanWhole {atEnd : Fault} {s ds r : List Char}
    (h : scanWhole atEnd s = .ok (ds, r)) : r.length < s.length := by
  unfold scanWhole at h
  split at h
  · simp at h
  · rename_i hd
    split at h
    · simp at h
    · simp only [Except.ok.injEq, Prod.mk.injEq] at h
      rw [← h.2]
      exact length_scanDigits hd

theorem length_scanFraction {atEnd : Fault} {s r : List Char} {f : Option (List Char)}
    (h : scanFraction atEnd s = .ok (f, r)) : r.length ≤ s.length := by
  cases s with
  | nil => simp [scanFraction] at h; simp [h]
  | cons c s =>
    simp only [scanFraction] at h
    split at h
    · cases hd : scanDigits atEnd s with
      | error e => simp [hd, Except.map] at h
      | ok x =>
        have := length_scanDigits hd
        simp only [hd, Except.map, Except.ok.injEq, Prod.mk.injEq] at h
        simp only [List.length_cons, ← h.2]
        omega
    · simp only [Except.ok.injEq, Prod.mk.injEq] at h
      simp [← h.2]

theorem length_scanSign_le (s : List Char) : (scanSign s).2.length ≤ s.length := by
  cases s with
  | nil => simp [scanSign]
  | cons c s =>
    simp only [scanSign]
    split
    · simp
    · split <;> simp

theorem length_scanMinus_le (s : List Char) : (scanMinus s).2.length ≤ s.length := by
  cases s with
  | nil => simp [scanMinus]
  | cons c s =>
    simp only [scanMinus]
    split <;> simp

theorem length_scanExponent {atEnd : Fault} {s r : List Char} {x : Option (Bool × List Char)}
    (h : scanExponent atEnd s = .ok (x, r)) : r.length ≤ s.length := by
  cases s with
  | nil => simp [scanExponent] at h; simp [h]
  | cons c s =>
    simp only [scanExponent] at h
    split at h
    · cases hd : scanDigits atEnd (scanSign s).2 with
      | error e => simp [hd, Except.map] at h
      | ok y =>
        have := length_scanDigits hd
        have := length_scanSign_le s
        simp only [hd, Except.map, Except.ok.injEq, Prod.mk.injEq] at h
        simp only [List.length_cons, ← h.2]
        omega
    · simp only [Except.ok.injEq, Prod.mk.injEq] at h
      simp [← h.2]

theorem length_scanNumeral {atEnd : Fault} {s r : List Char} {n : Numeral}
    (h : scanNumeral atEnd s = .ok (n, r)) : r.length < s.length := by
  unfold scanNumeral at h
  have h₁ := length_scanMinus_le s
  cases hw : scanWhole atEnd (scanMinus s).2 with
  | error e => simp [hw, bind, Except.bind] at h
  | ok w =>
    have h₂ := length_scanWhole hw
    cases hf : scanFraction atEnd w.2 with
    | error e => simp [hw, hf, bind, Except.bind] at h
    | ok f =>
      have h₃ := length_scanFraction hf
      cases hx : scanExponent atEnd f.2 with
      | error e => simp [hw, hf, hx, bind, Except.bind] at h
      | ok x =>
        have h₄ := length_scanExponent hx
        simp only [hw, hf, hx, bind, Except.bind, Except.ok.injEq, Prod.mk.injEq] at h
        rw [← h.2]
        omega

/-! ### Size -/

/-- The number that is nearest to `n` among those with 53 binary digits before their zeros;
of two that are equally near, the even one. -/
def roundTo53 (n : Nat) : Nat :=
  let unit := Nat.pow 2 (n.log2 + 1 - 53)
  let q := n / unit
  let r := n % unit
  if 2 * r < unit ∨ (2 * r = unit ∧ q % 2 = 0) then q * unit else (q + 1) * unit

/-- The least number that is rounded past the largest finite double. -/
def doubleLimit : Nat := Nat.pow 2 1024 - Nat.pow 2 970

namespace Numeral

/-- Appends digits to a number as long as it fits into 64 bits: the number, and how many
digits were left over. -/
def appendDigits (n : Nat) : List Char → Nat × Nat
  | [] => (n, 0)
  | d :: ds =>
    let m := 10 * n + (d.toNat - '0'.toNat)
    if m < UInt64.size then appendDigits m ds else (n, ds.length + 1)

/-- The digits of a numeral as a number of 64 bits, and the power of ten it is to be
multiplied with. Digits before the point that do not fit raise the power, digits behind
the point that fit lower it. -/
def scaled (n : Numeral) : Nat × Int :=
  let fraction := n.fraction.getD []
  let (w, dropped) := appendDigits 0 n.whole
  let (m, left) := appendDigits w fraction
  let power : Int :=
    match n.exponent with
    | none => 0
    | some (negative, ds) =>
      if negative then -(Nat.ofDigitChars 10 ds 0 : Int) else Nat.ofDigitChars 10 ds 0
  (m, dropped - ((fraction.length - left : Nat) : Int) + power)

/-- Whether a numeral stands for a number past the largest finite double. A power of ten
above 308 is itself too large, whatever it is multiplied with, zero apart. -/
def isTooLarge (n : Numeral) : Bool :=
  let (m, power) := n.scaled
  match power with
  | .negSucc _ => false
  | .ofNat p =>
    m ≠ 0 && (308 < p || decide (doubleLimit ≤ roundTo53 m * roundTo53 (Nat.pow 10 p)))

/-- The value of a numeral that is written with digits alone. -/
def natural? (n : Numeral) : Option Nat :=
  if n.negative = false ∧ n.fraction = none ∧ n.exponent = none then
    some (Nat.ofDigitChars 10 n.whole 0)
  else none

end Numeral

end Json

end TemplateMarkup
