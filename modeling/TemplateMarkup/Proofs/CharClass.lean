import TemplateMarkup.Proofs.Layout.Runs
import Mathlib.Computability.Language

/-!
# Written character classes

A table of ranges is used twice: characters are compared with its bounds, and it is written as the
body of a bracketed class for the patterns of regular expressions. The two have to be the same
class, or a text would be searched for other characters than the ones that make it blank. They are
the same for every table whose ranges are in order, since what is written denotes the ranges that
it was written for and no others.

## The model

`IsBody rs s` says that the text `s` is the body of a bracketed class with the items `rs`: one code
point after the other, each by its upper-case hexadecimal digits between braces, or two with a
hyphen between them for a range, which must not be the wrong way round. It knows of no table.
`Denotes s k` says that `k` are the characters of that class. What a pattern matches is said by
languages: a class matches each of its characters, and a repeated one as many as are asked for.

## What is proved

* `isBody_pattern` — what is written is the body of a class with these ranges.
* `readItems_of_isBody` — a body is read as its items, so it is the body of one class only.
* `denotes_pattern_iff` — so what is written for a table denotes what lies in its ranges.
* `mem_oneOf_pow_iff` — what a repeated class matches.
* `layout_classes_agree` — the written class of layout characters, and blank texts by it.
-/

namespace TemplateMarkup

namespace CharClass

/-! ### Bodies of bracketed classes -/

/-- `UpperDigit n c`: the character `c` is the upper-case hexadecimal digit of the value `n`. -/
def UpperDigit (n : Nat) (c : Char) : Prop := "0123456789ABCDEF".toList[n]? = some c

/-- `UpperHex n s`: upper-case hexadecimal digits of the value `n`, at least one. -/
inductive UpperHex : Nat → List Char → Prop where
  /-- A single digit. -/
  | digit {n : Nat} {c : Char} : UpperDigit n c → UpperHex n [c]
  /-- Digits with another one behind them. -/
  | snoc {n d : Nat} {s : List Char} {c : Char} : UpperHex n s → UpperDigit d c →
      UpperHex (16 * n + d) (s ++ [c])

/-- `IsCodePoint c s`: the text `s` is the code point of the character `c`, between braces. -/
inductive IsCodePoint : Char → List Char → Prop where
  /-- The digits may have zeros in front. -/
  | hex {c : Char} {s : List Char} : UpperHex c.toNat s →
      IsCodePoint c ('\\' :: 'x' :: '{' :: (s ++ ['}']))

/-- `IsItem r s`: the text `s` is an item of a class and stands for the range `r`. -/
inductive IsItem : CharRange → List Char → Prop where
  /-- A single character. -/
  | one {c : Char} {s : List Char} : IsCodePoint c s → IsItem (.one c) s
  /-- The characters from one to another. -/
  | range {lo hi : Char} {s t : List Char} : lo ≤ hi → IsCodePoint lo s → IsCodePoint hi t →
      IsItem ⟨lo, hi⟩ (s ++ '-' :: t)

/-- `IsBody rs s`: the text `s` is the body of a class with the items `rs`. -/
inductive IsBody : List CharRange → List Char → Prop where
  /-- A class without items. -/
  | nil : IsBody [] []
  /-- An item, and the others behind it. -/
  | cons {r : CharRange} {rs : List CharRange} {s t : List Char} : IsItem r s → IsBody rs t →
      IsBody (r :: rs) (s ++ t)

/-- **Denotes**: the text is the body of a class, and `k` are the characters of this class. -/
def Denotes (s : String) (k : Set Char) : Prop :=
  ∃ rs, IsBody rs s.toList ∧ k = {c | ∃ r ∈ rs, r.lo ≤ c ∧ c ≤ r.hi}

/-! ### Writing -/

theorem upperDigit_toUpper {n : Nat} (h : n < 16) : UpperDigit n (Nat.digitChar n).toUpper := by
  have digits : ∀ i < 16, "0123456789ABCDEF".toList[i]? = some (Nat.digitChar i).toUpper := by decide
  exact digits n h

/-- The digits that are written have the value they are written for: the last one is the remainder,
and the ones before it are those of the quotient. -/
theorem upperHex_hexUpper (n : Nat) : UpperHex n (hexUpper n) := by
  induction n using Nat.strongRecOn with
  | _ n ih =>
    rw [hexUpper, Nat.toDigits_eq_if (by decide)]
    split
    · rename_i small
      exact .digit (upperDigit_toUpper small)
    · have step := (ih (n / 16) (by omega)).snoc (upperDigit_toUpper (Nat.mod_lt n (by decide)))
      rw [Nat.div_add_mod] at step
      rw [List.map_append]
      exact step

theorem isCodePoint_codePoint (c : Char) : IsCodePoint c (codePoint c) :=
  .hex (upperHex_hexUpper c.toNat)

theorem isItem_item {r : CharRange} (h : r.lo ≤ r.hi) : IsItem r (item r) := by
  obtain ⟨lo, hi⟩ := r
  rw [item]
  split
  · rename_i same
    obtain rfl : lo = hi := same
    exact .one (isCodePoint_codePoint lo)
  · exact .range h (isCodePoint_codePoint lo) (isCodePoint_codePoint hi)

/-- **What is written for a table is the body of a class with its ranges.** -/
theorem isBody_pattern {k : CharClass} (h : ∀ r ∈ k.ranges, r.lo ≤ r.hi) :
    IsBody k.ranges k.pattern.toList := by
  obtain ⟨ranges⟩ := k
  rw [pattern, String.toList_ofList]
  induction ranges with
  | nil => exact .nil
  | cons r ranges ih =>
    obtain ⟨hr, hranges⟩ := List.forall_mem_cons.1 h
    exact .cons (isItem_item hr) (ih hranges)

/-! ### Reading -/

theorem hexValue?_of_upperDigit {n : Nat} {c : Char} (h : UpperDigit n c) :
    hexValue? c = some n ∧ c ≠ '}' := by
  have values : ∀ i < 16, "0123456789ABCDEF".toList[i]?.bind hexValue? = some i := by decide
  have value := values n (List.getElem?_eq_some_iff.1 h).1
  rw [h] at value
  refine ⟨value, ?_⟩
  rintro rfl
  exact absurd value (by simp [hexValue?])

theorem readHex_digit {n d : Nat} {c : Char} (h : UpperDigit d c) (t : List Char) :
    readHex n (c :: t) = readHex (16 * n + d) t := by
  obtain ⟨value, brace⟩ := hexValue?_of_upperDigit h
  simp only [readHex, brace, if_false, value, Option.bind_some]

/-- Digits are read as their value, and what stands behind them is left. -/
theorem readHex_append {n : Nat} {s : List Char} (h : UpperHex n s) (t : List Char) :
    readHex 0 (s ++ t) = readHex n t := by
  induction h generalizing t with
  | @digit n c hc =>
    have read := readHex_digit (n := 0) hc t
    rwa [Nat.mul_zero, Nat.zero_add] at read
  | snoc _ hc ih => rw [List.append_assoc, ih, List.singleton_append, readHex_digit hc]

theorem readCodePoint_append {c : Char} {s : List Char} (h : IsCodePoint c s) (t : List Char) :
    readCodePoint (s ++ t) = some (c, t) := by
  cases h with
  | hex hdigits =>
    have read := readHex_append hdigits ('}' :: t)
    rw [readHex, if_pos rfl] at read
    have valid : c.toNat.isValidChar := c.valid
    have back : Char.ofNat c.toNat = c := Char.ofNat_toNat c
    simp only [List.cons_append, List.append_assoc, List.nil_append, readCodePoint, read, bind,
      Option.bind_some, valid, if_true, back]

/-- An item is read as its range, if no hyphen stands behind it. -/
theorem readItem_append {r : CharRange} {s t : List Char} (h : IsItem r s)
    (ht : t.head? ≠ some '-') : readItem (s ++ t) = some (r, t) := by
  cases h with
  | one hc =>
    simp only [readItem, readCodePoint_append hc, bind, Option.bind_some]
    split
    · exact absurd rfl ht
    · rfl
  | range _ hlo hhi =>
    rw [List.append_assoc, List.cons_append]
    simp only [readItem, readCodePoint_append hlo, readCodePoint_append hhi, bind,
      Option.bind_some]

/-- Items begin with a backslash. -/
theorem IsItem.begins {r : CharRange} {s : List Char} (h : IsItem r s) : ∃ t, s = '\\' :: t := by
  cases h with
  | one hc =>
    obtain ⟨-⟩ := hc
    exact ⟨_, rfl⟩
  | range _ hlo _ =>
    obtain ⟨-⟩ := hlo
    exact ⟨_, rfl⟩

theorem IsBody.head?_ne {rs : List CharRange} {s : List Char} (h : IsBody rs s) :
    s.head? ≠ some '-' := by
  cases h with
  | nil => simp
  | cons hr _ =>
    obtain ⟨t, rfl⟩ := hr.begins
    simp

/-- **A body is read as its items.** -/
theorem readItems_of_isBody {rs : List CharRange} {s : List Char} (h : IsBody rs s) :
    readItems s = some rs := by
  induction h with
  | nil =>
    have empty : ([] : List Char).isEmpty = true := rfl
    rw [readItems, if_pos empty]
  | @cons r rs s t hr ht ih =>
    have nonempty : ¬ (s ++ t).isEmpty = true := by
      obtain ⟨u, rfl⟩ := hr.begins
      simp
    have read := readItem_append hr ht.head?_ne
    rw [readItems, if_neg nonempty]
    split <;> rename_i h <;> rw [read] at h
    · cases h
    · cases h
      rw [ih, Option.map_some]

theorem ofPattern?_pattern {k : CharClass} (h : ∀ r ∈ k.ranges, r.lo ≤ r.hi) :
    ofPattern? k.pattern = some k := by
  rw [ofPattern?, readItems_of_isBody (isBody_pattern h), Option.map_some]

/-- **What is written for a table denotes what lies in its ranges**, and nothing else. -/
theorem denotes_pattern_iff {k : CharClass} (h : ∀ r ∈ k.ranges, r.lo ≤ r.hi) {chars : Set Char} :
    Denotes k.pattern chars ↔ chars = {c | k.contains c = true} := by
  have body := isBody_pattern h
  simp only [contains_iff]
  constructor
  · rintro ⟨rs, hrs, rfl⟩
    have same := (readItems_of_isBody hrs).symm.trans (readItems_of_isBody body)
    rw [Option.some.inj same]
  · rintro rfl
    exact ⟨k.ranges, body, rfl⟩

/-! ### What a class matches -/

/-- What a class matches: each of its characters. -/
def oneOf (k : Set Char) : Language Char := {w | ∃ c ∈ k, w = [c]}

/-- What a class matches that is repeated: as many of its characters. -/
theorem mem_oneOf_pow_iff {k : Set Char} {n : Nat} {w : List Char} :
    w ∈ oneOf k ^ n ↔ w.length = n ∧ ∀ c ∈ w, c ∈ k := by
  induction n generalizing w with
  | zero =>
    rw [pow_zero, Language.mem_one, List.length_eq_zero_iff]
    constructor
    · rintro rfl
      exact ⟨rfl, by simp⟩
    · exact fun h => h.1
  | succ n ih =>
    rw [pow_succ', Language.mem_mul]
    constructor
    · rintro ⟨_, ⟨c, hc, rfl⟩, w, hw, rfl⟩
      obtain ⟨rfl, hall⟩ := ih.1 hw
      exact ⟨rfl, List.forall_mem_cons.2 ⟨hc, hall⟩⟩
    · rintro ⟨hlength, hall⟩
      obtain ⟨c, w, rfl⟩ := List.exists_cons_of_length_eq_add_one hlength
      obtain ⟨hc, hall⟩ := List.forall_mem_cons.1 hall
      exact ⟨[c], ⟨c, hc, rfl⟩, w, ih.2 ⟨Nat.succ.inj hlength, hall⟩, rfl⟩

end CharClass

namespace Layout

open CharClass (Denotes oneOf)

theorem ordered_layoutClass : ∀ r ∈ layoutClass.ranges, r.lo ≤ r.hi := by decide

/-- A match is what two or more layout characters match. -/
theorem isMatch_iff {m : List Char} :
    IsMatch m ↔ ∃ n, 2 ≤ n ∧ m ∈ oneOf {c | isLayout c = true} ^ n := by
  simp only [CharClass.mem_oneOf_pow_iff]
  constructor
  · rintro ⟨hlength, hall⟩
    exact ⟨m.length, hlength, rfl, hall⟩
  · rintro ⟨_, hlength, rfl, hall⟩
    exact ⟨hlength, hall⟩

/-- Blank texts by their length. -/
theorem isBlank_iff_isMatch {s : String} :
    isBlank s = true ↔ s = "" ∨ (∃ c, isLayout c = true ∧ s.toList = [c]) ∨ IsMatch s.toList := by
  rw [isBlank_iff, ← String.toList_eq_nil_iff]
  rcases s.toList with _ | ⟨c, _ | ⟨d, cs⟩⟩
  · simp
  · simp [IsMatch]
  · simp [IsMatch]

/-- **The two classes of layout characters agree.** The written class is the body of exactly one
class, which has the characters that are compared with the table, and reading it gives the table
back. So a text is blank exactly if it is empty, or matched by the class, or matched by the class
repeated two or more times; and the last of these is what collapsing searches for. -/
theorem layout_classes_agree :
    CharClass.ofPattern? layoutClass.pattern = some layoutClass ∧
    ∃ k : Set Char, (∀ k', Denotes layoutClass.pattern k' ↔ k' = k) ∧
      (∀ c, c ∈ k ↔ isLayout c = true) ∧
      (∀ s, isBlank s = true ↔
        s = "" ∨ s.toList ∈ oneOf k ∨ ∃ n, 2 ≤ n ∧ s.toList ∈ oneOf k ^ n) ∧
      ∀ m, IsMatch m ↔ ∃ n, 2 ≤ n ∧ m ∈ oneOf k ^ n := by
  refine ⟨CharClass.ofPattern?_pattern ordered_layoutClass, {c | isLayout c = true},
    fun k' => CharClass.denotes_pattern_iff ordered_layoutClass, fun c => Iff.rfl, fun s => ?_,
    fun m => isMatch_iff⟩
  rw [isBlank_iff_isMatch, isMatch_iff]
  rfl

end Layout

end TemplateMarkup
