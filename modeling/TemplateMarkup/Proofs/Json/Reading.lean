import TemplateMarkup.Proofs.Json.Strings
import Mathlib.Data.List.Basic

/-!
# Reading what stands in a text

What it means that a reader reads a text as a value wherever the text stands, with any blanks in
front of it and with anything behind it that ends a value, and that the readers of truth values,
counters, strings and names do so.

## The model

`Ahead P s` says that the text `s` is at its end, or goes on with a character for which `P`
holds. What ends a value, `Ends`, matters for numbers alone: every other value says itself where
it is over.

## What is proved

* `dropBlanks_append` and `colon_append` — blanks are dropped wherever they may stand.
* `scanNumeral_append` — a numeral is taken as a whole, and `isWhole_writeNat` with
  `isTooLarge_eq_false` that a counter is written as one that is small enough.
* `Reader.reads_bool`, `Reader.reads_counter`, `Reader.reads_string`, `Reader.reads_optional_none`,
  `Reader.reads_optional_some` and `Reader.reads_choice` — what each reader of a single value reads.
-/

namespace TemplateMarkup

namespace Json

/-! ### What is ahead -/

/-- `Ahead P s`: if the text `s` goes on, its next character is one for which `P` holds. -/
def Ahead (P : Char → Prop) (s : List Char) : Prop := ∀ c ∈ s.head?, P c

@[simp] theorem ahead_nil (P : Char → Prop) : Ahead P [] := by simp [Ahead]

@[simp] theorem ahead_cons (P : Char → Prop) (c : Char) (s : List Char) :
    Ahead P (c :: s) ↔ P c := by simp [Ahead]

theorem Ahead.mono {P Q : Char → Prop} {s : List Char} (h : Ahead P s) (hPQ : ∀ c, P c → Q c) :
    Ahead Q s := fun c hc => hPQ c (h c hc)

/-- In front of a text with something in it, what comes behind does not matter. -/
theorem ahead_append {P : Char → Prop} {s t : List Char} (hs : Ahead P s) (ht : Ahead P t) :
    Ahead P (s ++ t) := by
  cases s with
  | nil => exact ht
  | cons c s => simpa using hs

/-- **What ends a value**: the end of the text, a blank, a comma or a closing bracket. -/
def Ends (s : List Char) : Prop := Ahead (· ∈ [' ', '\t', '\n', '\r', ',', ']', '}']) s

/-! ### Blanks -/

theorem isBlank_eq_true_iff (c : Char) : isBlank c = true ↔ c ∈ [' ', '\t', '\n', '\r'] := by
  simp [isBlank, or_assoc]

theorem isBlank_eq_false_of_isDigit {c : Char} (h : c.isDigit = true) : isBlank c = false := by
  rw [Bool.eq_false_iff]
  intro blank
  have mem := (isBlank_eq_true_iff c).1 blank
  simp only [List.mem_cons, List.not_mem_nil, or_false] at mem
  rcases mem with rfl | rfl | rfl | rfl <;> exact absurd h (by decide)

@[simp] theorem blanks_nil : Blanks [] := by simp [Blanks]

/-- Blanks are dropped up to a character that is none. -/
theorem dropBlanks_append {blanks s : List Char} (h : Blanks blanks)
    (hs : Ahead (isBlank · = false) s) : dropBlanks (blanks ++ s) = s := by
  have all : ∀ c ∈ blanks, isBlank c = true := fun c hc => (isBlank_eq_true_iff c).2 (h c hc)
  rw [dropBlanks, List.dropWhile_append_of_pos all]
  cases s with
  | nil => rfl
  | cons c s => exact List.dropWhile_cons_of_neg (by simpa using hs)

theorem dropBlanks_append_cons {blanks : List Char} {c : Char} (h : Blanks blanks)
    (hc : isBlank c = false) (s : List Char) : dropBlanks (blanks ++ c :: s) = c :: s :=
  dropBlanks_append h (by simpa using hc)

/-- Blanks in front of what ends a value end it, too. -/
theorem ends_append {blanks s : List Char} (h : Blanks blanks) (hs : Ends s) :
    Ends (blanks ++ s) := by
  refine ahead_append (fun c hc => ?_) hs
  have mem : c ∈ [' ', '\t', '\n', '\r'] := h c (List.mem_of_mem_head? hc)
  exact List.mem_append_left [',', ']', '}'] mem

/-- Behind the last value of a text there may be blanks. -/
theorem Blanks.ends {blanks : List Char} (h : Blanks blanks) :
    Ends blanks ∧ dropBlanks blanks = [] := by
  refine ⟨?_, ?_⟩
  · simpa using ends_append h (ahead_nil _)
  · simpa using dropBlanks_append h (ahead_nil _)

theorem colon_append {blanks : List Char} (h : Blanks blanks) (s : List Char) :
    colon (blanks ++ ':' :: s) = .ok s := by
  rw [colon, dropBlanks_append_cons h (by decide)]
  simp

/-! ### Numerals -/

/-- What cannot go on a numeral. -/
theorem Ends.not_numeral {s : List Char} (h : Ends s) :
    Ahead (fun c => c.isDigit = false ∧ c ≠ '.' ∧ c ≠ 'e' ∧ c ≠ 'E') s :=
  h.mono fun c hc => by
    simp only [List.mem_cons, List.not_mem_nil, or_false] at hc
    rcases hc with rfl | rfl | rfl | rfl | rfl | rfl | rfl <;> decide

theorem scanDigits_append (atEnd : Fault) {ds s : List Char} (h : IsDigits ds)
    (hs : Ahead (·.isDigit = false) s) : scanDigits atEnd (ds ++ s) = .ok (ds, s) := by
  obtain ⟨nonempty, all⟩ := h
  have stop : s.takeWhile Char.isDigit = [] ∧ s.dropWhile Char.isDigit = s := by
    cases s with
    | nil => exact ⟨rfl, rfl⟩
    | cons c s =>
      have hc : ¬ c.isDigit = true := by simpa using hs
      exact ⟨List.takeWhile_cons_of_neg hc, List.dropWhile_cons_of_neg hc⟩
  rw [scanDigits, List.takeWhile_append_of_pos all, List.dropWhile_append_of_pos all, stop.1,
    stop.2, List.append_nil]
  cases ds with
  | nil => exact absurd rfl nonempty
  | cons d ds => rfl

/-- Digits go on with a digit. -/
theorem IsDigits.ahead {ds : List Char} (h : IsDigits ds) (s : List Char) :
    Ahead (·.isDigit = true) (ds ++ s) := by
  obtain ⟨nonempty, all⟩ := h
  cases ds with
  | nil => exact absurd rfl nonempty
  | cons d ds => simpa using all d (by simp)

theorem IsWhole.isDigits {ds : List Char} (h : IsWhole ds) : IsDigits ds := by
  cases h with
  | zero => exact ⟨by simp, List.forall_mem_singleton.2 (by decide)⟩
  | digits _ digits => exact digits

/-- Only a single zero starts with a zero. -/
theorem IsWhole.not_padded {ds : List Char} (h : IsWhole ds) :
    ¬ (ds.head? = some '0' ∧ 1 < ds.length) := by
  cases h with
  | zero => simp
  | digits first _ => simp [first]

theorem scanWhole_append (atEnd : Fault) {ds s : List Char} (h : IsWhole ds)
    (hs : Ahead (·.isDigit = false) s) : scanWhole atEnd (ds ++ s) = .ok (ds, s) := by
  rw [scanWhole, scanDigits_append atEnd h.isDigits hs]
  exact if_neg h.not_padded

/-- Without a point there are no digits behind it. -/
theorem scanFraction_of_ahead (atEnd : Fault) {s : List Char} (hs : Ahead (· ≠ '.') s) :
    scanFraction atEnd s = .ok (none, s) := by
  cases s with
  | nil => rfl
  | cons c s =>
    have point : c ≠ '.' := by simpa using hs
    simp [scanFraction, point]

theorem scanFraction_append (atEnd : Fault) {f s : List Char} (h : IsFraction f)
    (hs : Ahead (fun c => c.isDigit = false ∧ c ≠ '.') s) :
    ∃ x, scanFraction atEnd (f ++ s) = .ok (x, s) := by
  cases h with
  | none => exact ⟨none, scanFraction_of_ahead atEnd (hs.mono fun _ h => h.2)⟩
  | @digits ds digits =>
    have read := scanDigits_append atEnd digits (hs.mono fun _ h => h.1)
    refine ⟨some ds, ?_⟩
    simp only [List.cons_append, scanFraction, if_true, read, Except.map]

/-- Digits have no sign in front. -/
theorem ne_sign_of_isDigit {c : Char} (h : c.isDigit = true) : c ≠ '-' ∧ c ≠ '+' := by
  constructor
  · rintro rfl
    exact absurd h (by decide)
  · rintro rfl
    exact absurd h (by decide)

/-- A sign in front of digits is passed over. -/
theorem scanSign_append {sign s : List Char} (h : sign ∈ [[], ['+'], ['-']])
    (hs : Ahead (·.isDigit = true) s) : (scanSign (sign ++ s)).2 = s := by
  have signs : sign = [] ∨ sign = ['+'] ∨ sign = ['-'] := by simpa using h
  obtain rfl | rfl | rfl := signs
  · cases s with
    | nil => rfl
    | cons c s =>
      obtain ⟨minus, plus⟩ := ne_sign_of_isDigit ((ahead_cons _ c s).1 hs)
      simp [scanSign, minus, plus]
  · rfl
  · rfl

/-- Without its letter there is no exponent. -/
theorem scanExponent_of_ahead (atEnd : Fault) {s : List Char}
    (hs : Ahead (fun c => c ≠ 'e' ∧ c ≠ 'E') s) : scanExponent atEnd s = .ok (none, s) := by
  cases s with
  | nil => rfl
  | cons c s =>
    obtain ⟨small, capital⟩ := (ahead_cons _ c s).1 hs
    simp [scanExponent, small, capital]

theorem scanExponent_append (atEnd : Fault) {e s : List Char} (h : IsExponent e)
    (hs : Ahead (fun c => c.isDigit = false ∧ c ≠ 'e' ∧ c ≠ 'E') s) :
    ∃ x, scanExponent atEnd (e ++ s) = .ok (x, s) := by
  cases h with
  | none => exact ⟨none, scanExponent_of_ahead atEnd (hs.mono fun _ h => h.2)⟩
  | @digits e sign ds letter hsign digits =>
    have isLetter : e = 'e' ∨ e = 'E' := by simpa using letter
    have rest := scanSign_append hsign (digits.ahead s)
    have read := scanDigits_append atEnd digits (hs.mono fun _ h => h.1)
    refine ⟨some ((scanSign (sign ++ (ds ++ s))).1, ds), ?_⟩
    simp [scanExponent, isLetter, rest, read, Except.map]

/-- Digits alone have no minus sign. -/
theorem scanMinus_of_ahead {s : List Char} (hs : Ahead (·.isDigit = true) s) :
    scanMinus s = (false, s) := by
  cases s with
  | nil => rfl
  | cons c s =>
    have minus := (ne_sign_of_isDigit ((ahead_cons _ c s).1 hs)).1
    simp [scanMinus, minus]

theorem scanMinus_append {sign s : List Char} (h : sign ∈ [[], ['-']])
    (hs : Ahead (·.isDigit = true) s) : (scanMinus (sign ++ s)).2 = s := by
  have signs : sign = [] ∨ sign = ['-'] := by simpa using h
  obtain rfl | rfl := signs
  · rw [List.nil_append, scanMinus_of_ahead hs]
  · rfl

/-- A numeral is taken as a whole, whatever its size: what follows each of its parts cannot go on
with the part. -/
theorem scanNumeral_append (atEnd : Fault) {n s : List Char} (h : IsNumeral n) (hs : Ends s) :
    ∃ x, scanNumeral atEnd (n ++ s) = .ok (x, s) := by
  obtain @⟨sign, whole, fraction, exponent, hsign, hwhole, hfraction, hexponent⟩ := h
  have behind := hs.not_numeral
  have afterFraction : Ahead (fun c => c.isDigit = false ∧ c ≠ '.') (exponent ++ s) := by
    refine ahead_append ?_ (behind.mono fun c h => ⟨h.1, h.2.1⟩)
    cases hexponent with
    | none => simp
    | @digits e _ _ letter _ _ =>
      have isLetter : e = 'e' ∨ e = 'E' := by simpa using letter
      rcases isLetter with rfl | rfl <;> simp
  have afterWhole : Ahead (·.isDigit = false) (fraction ++ (exponent ++ s)) := by
    refine ahead_append ?_ (afterFraction.mono fun c h => h.1)
    cases hfraction <;> simp
  obtain ⟨f, hf⟩ := scanFraction_append atEnd hfraction afterFraction
  obtain ⟨e, he⟩ := scanExponent_append atEnd hexponent
    (behind.mono fun c h => ⟨h.1, h.2.2.1, h.2.2.2⟩)
  have hm := scanMinus_append hsign (hwhole.isDigits.ahead (fraction ++ (exponent ++ s)))
  have hw := scanWhole_append atEnd hwhole afterWhole
  refine ⟨⟨(scanMinus (sign ++ (whole ++ (fraction ++ (exponent ++ s))))).1, whole, f, e⟩, ?_⟩
  simp only [scanNumeral, List.append_assoc, hm, hw, hf, he, bind, Except.bind]

/-- Digits alone are taken as what stands before the point. -/
theorem scanNumeral_whole (atEnd : Fault) {ds s : List Char} (h : IsWhole ds) (hs : Ends s) :
    scanNumeral atEnd (ds ++ s) = .ok (⟨false, ds, none, none⟩, s) := by
  have behind := hs.not_numeral
  have hm := scanMinus_of_ahead (h.isDigits.ahead s)
  have hw := scanWhole_append atEnd h (behind.mono fun _ h => h.1)
  have hf := scanFraction_of_ahead atEnd (behind.mono fun _ h => h.2.1)
  have he := scanExponent_of_ahead atEnd (behind.mono fun _ h => h.2.2)
  simp only [scanNumeral, hm, hw, hf, he, bind, Except.bind]

/-! ### Counters -/

theorem isDigits_writeNat (n : Nat) : IsDigits (writeNat n) :=
  ⟨List.ne_nil_of_length_pos Nat.length_toDigits_pos,
    fun _ hc => Nat.isDigit_of_mem_toDigits (by decide) (by decide) hc⟩

/-- No zero stands in front of the digits of a counter: the first digit is what is left over when
the others have been divided away. -/
theorem head?_writeNat {n : Nat} (h : n ≠ 0) : (writeNat n).head? ≠ some '0' := by
  induction n using Nat.strongRecOn with
  | _ n ih =>
    rw [writeNat, Nat.toDigits_eq_if (by decide)]
    split
    · rename_i small
      have nonzero : ∀ i < 10, i ≠ 0 → Nat.digitChar i ≠ '0' := by decide
      simpa using nonzero n small h
    · rename_i large
      have ne : Nat.toDigits 10 (n / 10) ≠ [] := (isDigits_writeNat (n / 10)).1
      rw [List.head?_append_of_ne_nil _ ne]
      exact ih (n / 10) (by omega) (by omega)

/-- A counter is written as digits that may stand before a point. -/
theorem isWhole_writeNat (n : Nat) : IsWhole (writeNat n) := by
  by_cases zero : n = 0
  · rw [zero]
    exact .zero
  · have digits := isDigits_writeNat n
    have first := head?_writeNat zero
    cases hw : writeNat n with
    | nil => exact absurd hw digits.1
    | cons c s =>
      rw [hw] at digits first
      exact .digits (by simpa using first) digits

/-- Reading digits never lowers the number they are appended to. -/
theorem le_ofDigitChars (ds : List Char) (n : Nat) : n ≤ Nat.ofDigitChars 10 ds n := by
  induction ds generalizing n with
  | nil => exact Nat.le_refl n
  | cons d ds ih =>
    rw [Nat.ofDigitChars_cons]
    exact Nat.le_trans (by omega) (ih (10 * n + (d.toNat - '0'.toNat)))

/-- All digits of a number of 64 bits are appended. -/
theorem appendDigits_eq (ds : List Char) (n : Nat) (h : Nat.ofDigitChars 10 ds n < UInt64.size) :
    Numeral.appendDigits n ds = (Nat.ofDigitChars 10 ds n, 0) := by
  induction ds generalizing n with
  | nil => rfl
  | cons d ds ih =>
    rw [Nat.ofDigitChars_cons] at h
    have fits := Nat.lt_of_le_of_lt (le_ofDigitChars ds (10 * n + (d.toNat - '0'.toNat))) h
    rw [Nat.ofDigitChars_cons, Numeral.appendDigits]
    simp only [fits, if_true]
    exact ih _ h

/-- Rounding at most doubles a number. -/
theorem roundTo53_le {n : Nat} (h : n ≠ 0) : roundTo53 n ≤ 2 * n := by
  have unit : Nat.pow 2 (n.log2 + 1 - 53) ≤ n := by
    calc Nat.pow 2 (n.log2 + 1 - 53) ≤ Nat.pow 2 n.log2 := Nat.pow_le_pow_right (by omega) (by omega)
      _ ≤ n := Nat.log2_self_le h
  have part := Nat.div_mul_le_self n (Nat.pow 2 (n.log2 + 1 - 53))
  simp only [roundTo53, Nat.add_mul]
  split <;> omega

/-- A number of 64 bits that is written with digits alone is small enough to be read. -/
theorem isTooLarge_eq_false {ds : List Char} (h : Nat.ofDigitChars 10 ds 0 < UInt64.size) :
    Numeral.isTooLarge ⟨false, ds, none, none⟩ = false := by
  have scaled : Numeral.scaled ⟨false, ds, none, none⟩ = (Nat.ofDigitChars 10 ds 0, .ofNat 0) := by
    simp [Numeral.scaled, appendDigits_eq ds 0 h, Numeral.appendDigits]
  generalize Nat.ofDigitChars 10 ds 0 = n at *
  by_cases zero : n = 0
  · simp [Numeral.isTooLarge, scaled, zero]
  · have limit : 2 * UInt64.size ≤ doubleLimit := by decide +kernel
    have one : roundTo53 (Nat.pow 10 0) = 1 := by decide
    have small := roundTo53_le zero
    have fits : ¬ doubleLimit ≤ roundTo53 n * roundTo53 (Nat.pow 10 0) := by
      rw [one]
      omega
    simp only [Numeral.isTooLarge, scaled, fits]
    simp

/-! ### Values that are read -/

namespace Reader

variable {α β : Type}

/-- **Reads**: wherever the text `s` stands, with blanks in front of it and with what ends a
value behind it, the value `a` is read and what stands behind is left. -/
def Reads (p : Reader α) (s : List Char) (a : α) : Prop :=
  ∀ ⦃before rest⦄, Blanks before → Ends rest → p.run (before ++ (s ++ rest)) = .ok (a, rest)

theorem Reads.map {p : Reader α} {s : List Char} {a : α} (h : p.Reads s a) (f : α → β) :
    (p.map f).Reads s (f a) := by
  intro before rest hb hr
  simp only [Reader.map, h hb hr, Except.map]

/-- What is read anywhere is read as a whole text, with any blanks around it. -/
theorem Reads.whole {p : Reader α} {s : List Char} {a : α} (h : p.Reads s a)
    {before after : List Char} (hb : Blanks before) (ha : Blanks after) :
    p.whole (String.ofList (before ++ (s ++ after))) = .ok a := by
  obtain ⟨ends, dropped⟩ := ha.ends
  refine whole_eq_ok_of_run ?_ dropped
  rw [String.toList_ofList]
  exact h hb ends

/-- A truth value is read as it is written. -/
theorem reads_bool (b : Bool) : bool.Reads (writeBool b) b := by
  intro before rest hb _
  cases b with
  | false =>
    have word : expect ['a', 'l', 's', 'e'] ('a' :: 'l' :: 's' :: 'e' :: rest) = .ok rest :=
      expect_append ['a', 'l', 's', 'e'] rest
    simp [bool, scanBool, writeBool, dropBlanks_append_cons hb, isBlank, word, Except.map]
  | true =>
    have word : expect ['r', 'u', 'e'] ('r' :: 'u' :: 'e' :: rest) = .ok rest :=
      expect_append ['r', 'u', 'e'] rest
    simp [bool, scanBool, writeBool, dropBlanks_append_cons hb, isBlank, word, Except.map]

/-- A counter is read as it is written. -/
theorem reads_counter (n : UInt64) : counter.Reads (writeNat n.toNat) n := by
  intro before rest hb hr
  have value : Nat.ofDigitChars 10 (writeNat n.toNat) 0 = n.toNat :=
    Nat.ofDigitChars_toDigits (by decide) (by decide)
  have size : n.toNat < UInt64.size := n.toNat_lt_size
  have small := isTooLarge_eq_false (value ▸ size)
  have taken := scanNumeral_whole .cutShort (isWhole_writeNat n.toNat) hr
  have digits := isDigits_writeNat n.toNat
  cases hw : writeNat n.toNat with
  | nil => exact absurd hw digits.1
  | cons c s =>
    rw [hw] at digits taken value small
    have digit : c.isDigit = true := digits.2 c (by simp)
    have start := dropBlanks_append_cons hb (isBlank_eq_false_of_isDigit digit) (s ++ rest)
    have read : scanNumber (c :: (s ++ rest)) = .ok (⟨false, c :: s, none, none⟩, rest) := by
      rw [List.cons_append] at taken
      simp only [scanNumber, taken, small, if_false, Bool.false_eq_true]
    simp [counter, scanCounter, start, digit, read, Numeral.natural?, value, size]

/-- A string is read however it is spelled. -/
theorem reads_string {s : List Char} {t : String} (h : Quotes s t) : string.Reads s t := by
  obtain ⟨spelled⟩ := h
  intro before rest hb _
  have read := scanQuoted_append spelled rest
  simp [string, scanString, inQuotes, dropBlanks_append_cons hb, isBlank, read, Except.map]

/-- A string that may be missing is read as a string or as `null`. -/
theorem reads_optional_none : optional.Reads writeNull none := by
  intro before rest hb _
  have word : expect ['u', 'l', 'l'] ('u' :: 'l' :: 'l' :: rest) = .ok rest :=
    expect_append ['u', 'l', 'l'] rest
  simp [optional, scanOptional, writeNull, dropBlanks_append_cons hb, isBlank, word, Except.map]

theorem reads_optional_some {s : List Char} {t : String} (h : Quotes s t) :
    optional.Reads s (some t) := by
  intro before rest hb hr
  have read : scanString (s ++ rest) = .ok (t, rest) := reads_string h blanks_nil hr
  obtain ⟨spelled⟩ := h
  rw [inQuotes, List.cons_append, List.cons_append] at read
  simp only [optional, scanOptional, inQuotes, List.cons_append,
    dropBlanks_append_cons hb (by decide : isBlank '"' = false), read, Except.map]
  rfl

/-- One of a few values is read by its name, however the name is spelled. -/
theorem reads_choice {choices : List (String × α)} {name : String} {a : α} {s : List Char}
    (ha : choices.lookup name = some a) (h : Quotes s name) : (choice choices).Reads s a := by
  obtain ⟨spelled⟩ := h
  intro before rest hb _
  have read := scanQuoted_append spelled rest
  simp [choice, scanChoice, inQuotes, dropBlanks_append_cons hb, isBlank, read, choose, ha,
    Except.map]

end Reader

end Json

end TemplateMarkup
