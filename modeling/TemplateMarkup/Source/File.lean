/-!
# Source files and byte counts

A source file is its content and the address it was read from. Places in the content
are counted in bytes of its UTF-8 form, while the content itself is a list of
characters, so this module cuts a list of characters at a byte count.

## The model

A *boundary* is the byte count of some first part of the content. `splitBytes?` cuts
at a boundary and refuses any other count. `Cursor.seek` never refuses: it stops at
the last boundary that is not above the count, which for a count past the end is the
end of the content.

## What is proved

* `isSome_splitBytes?_iff` — a text can be cut at a count exactly if it is a boundary, and
  `splitBytes?_eq_some` says that the cut is made there and loses nothing.
* `Cursor.content_seek`, `Cursor.isBoundary_seek`, `Cursor.offset_seek_le` and
  `Cursor.lt_of_seek` — seeking loses nothing, and finds the last boundary that is not
  above the count.
-/

namespace TemplateMarkup

namespace Source

/-- A source file. -/
structure File where
  /-- The whole text. -/
  content : String
  /-- Where the text was read from. -/
  url : String
  deriving DecidableEq, Inhabited

/-! ### Byte counts -/

/-- The number of bytes that characters take in UTF-8. -/
def byteLength : List Char → Nat
  | [] => 0
  | c :: cs => c.utf8Size + byteLength cs

@[simp] theorem byteLength_nil : byteLength [] = 0 := rfl

@[simp] theorem byteLength_cons (c : Char) (cs : List Char) :
    byteLength (c :: cs) = c.utf8Size + byteLength cs := rfl

@[simp] theorem byteLength_append (as bs : List Char) :
    byteLength (as ++ bs) = byteLength as + byteLength bs := by
  induction as with
  | nil => simp
  | cons a as ih => simp [ih, Nat.add_assoc]

@[simp] theorem byteLength_reverse (cs : List Char) : byteLength cs.reverse = byteLength cs := by
  induction cs with
  | nil => rfl
  | cons c cs ih => simp [ih, Nat.add_comm]

/-- **Boundary**: the content has a first part of `n` bytes. -/
def IsBoundary (content : List Char) (n : Nat) : Prop :=
  ∃ before after, content = before ++ after ∧ n = byteLength before

/-- Cuts off a first part of exactly `n` bytes; `none` if there is no such part. -/
def splitBytes? : List Char → Nat → Option (List Char × List Char)
  | cs, 0 => some ([], cs)
  | [], _ + 1 => none
  | c :: cs, n + 1 =>
    if c.utf8Size ≤ n + 1 then
      (splitBytes? cs (n + 1 - c.utf8Size)).map fun (first, rest) => (c :: first, rest)
    else none

/-- The cut loses nothing and is made where it was asked for. -/
theorem splitBytes?_eq_some {cs first rest : List Char} {n : Nat}
    (h : splitBytes? cs n = some (first, rest)) : cs = first ++ rest ∧ n = byteLength first := by
  induction cs generalizing n first with
  | nil => cases n <;> simp_all [splitBytes?]
  | cons c cs ih =>
    cases n with
    | zero => simp_all [splitBytes?]
    | succ n =>
      simp only [splitBytes?] at h
      split at h
      · simp only [Option.map_eq_some_iff, Prod.exists, Prod.mk.injEq] at h
        obtain ⟨f, r, hf, rfl, rfl⟩ := h
        obtain ⟨h₁, h₂⟩ := ih hf
        exact ⟨by simp [h₁], by simp; omega⟩
      · simp at h

/-- A first part can be cut off by its byte count. -/
theorem splitBytes?_append (first rest : List Char) :
    splitBytes? (first ++ rest) (byteLength first) = some (first, rest) := by
  induction first with
  | nil => simp [splitBytes?]
  | cons c cs ih =>
    have hc := c.utf8Size_pos
    obtain ⟨n, hn⟩ : ∃ n, byteLength (c :: cs) = n + 1 := ⟨byteLength (c :: cs) - 1, by simp; omega⟩
    have hn' : n + 1 - c.utf8Size = byteLength cs := by simp at hn; omega
    simp only [List.cons_append, hn, splitBytes?, hn', ih]
    simp at hn
    simp; omega

/-- A byte count can be cut at exactly if it is a boundary. -/
theorem isSome_splitBytes?_iff {cs : List Char} {n : Nat} :
    (splitBytes? cs n).isSome ↔ IsBoundary cs n := by
  constructor
  · intro h
    obtain ⟨⟨first, rest⟩, h⟩ := Option.isSome_iff_exists.1 h
    exact ⟨first, rest, splitBytes?_eq_some h⟩
  · rintro ⟨first, rest, rfl, rfl⟩
    simp [splitBytes?_append]

instance (cs : List Char) (n : Nat) : Decidable (IsBoundary cs n) :=
  decidable_of_iff _ isSome_splitBytes?_iff

/-! ### Cursors -/

/-- A place between two characters of a text. -/
structure Cursor where
  /-- The characters before the place, the nearest first. -/
  behind : List Char
  /-- The characters after the place, the nearest first. -/
  ahead : List Char
  deriving DecidableEq

namespace Cursor

/-- The whole text around a cursor. -/
def content (k : Cursor) : List Char := k.behind.reverse ++ k.ahead

/-- The byte count of what stands before a cursor. -/
def offset (k : Cursor) : Nat := byteLength k.behind

/-- Walks over characters as long as they fit into `n` bytes. -/
def seekFrom (behind : List Char) : List Char → Nat → Cursor
  | [], _ => ⟨behind, []⟩
  | c :: ahead, n =>
    if c.utf8Size ≤ n then seekFrom (c :: behind) ahead (n - c.utf8Size)
    else ⟨behind, c :: ahead⟩

/-- The last place of the text with at most `n` bytes before it. -/
def seek (cs : List Char) (n : Nat) : Cursor := seekFrom [] cs n

theorem content_seekFrom (behind ahead : List Char) (n : Nat) :
    (seekFrom behind ahead n).content = behind.reverse ++ ahead := by
  induction ahead generalizing behind n with
  | nil => simp [seekFrom, content]
  | cons c ahead ih =>
    simp only [seekFrom]
    split
    · simp [ih]
    · rfl

/-- Seeking loses nothing of the text. -/
@[simp] theorem content_seek (cs : List Char) (n : Nat) : (seek cs n).content = cs := by
  simp [seek, content_seekFrom]

theorem offset_seekFrom_le (behind ahead : List Char) (n : Nat) :
    (seekFrom behind ahead n).offset ≤ byteLength behind + n := by
  induction ahead generalizing behind n with
  | nil => simp [seekFrom, offset]
  | cons c ahead ih =>
    simp only [seekFrom]
    split
    · have := ih (c :: behind) (n - c.utf8Size)
      simp only [byteLength_cons] at this
      omega
    · simp [offset]

/-- Seeking never goes past the count. -/
theorem offset_seek_le (cs : List Char) (n : Nat) : (seek cs n).offset ≤ n := by
  simpa [seek] using offset_seekFrom_le [] cs n

/-- Seeking stops only where the next character no longer fits. -/
theorem lt_of_seekFrom {behind ahead : List Char} {n : Nat} {c : Char} {rest : List Char}
    (h : (seekFrom behind ahead n).ahead = c :: rest) :
    byteLength behind + n < (seekFrom behind ahead n).offset + c.utf8Size := by
  induction ahead generalizing behind n with
  | nil => simp [seekFrom] at h
  | cons d ahead ih =>
    simp only [seekFrom] at h ⊢
    split at h
    · rename_i hd
      have := ih h
      simp only [byteLength_cons] at this
      simp only [hd, if_true]
      omega
    · rename_i hd
      simp only [List.cons.injEq] at h
      simp only [hd, if_false, offset]
      have := h.1
      subst this
      omega

theorem lt_of_seek {cs : List Char} {n : Nat} {c : Char} {rest : List Char}
    (h : (seek cs n).ahead = c :: rest) : n < (seek cs n).offset + c.utf8Size := by
  simpa [seek] using lt_of_seekFrom h

/-- The place that seeking finds is a boundary. -/
theorem isBoundary_seek (cs : List Char) (n : Nat) : IsBoundary cs (seek cs n).offset :=
  ⟨(seek cs n).behind.reverse, (seek cs n).ahead, (content_seek cs n).symm, by simp [offset]⟩

/-- The place `n` characters further on, or the end of the text. -/
def advance (k : Cursor) (n : Nat) : Cursor :=
  ⟨(k.ahead.take n).reverse ++ k.behind, k.ahead.drop n⟩

/-- The place `n` characters back, or the start of the text. -/
def retreat (k : Cursor) (n : Nat) : Cursor :=
  ⟨k.behind.drop n, (k.behind.take n).reverse ++ k.ahead⟩

@[simp] theorem content_advance (k : Cursor) (n : Nat) : (k.advance n).content = k.content := by
  simp [content, advance]

@[simp] theorem content_retreat (k : Cursor) (n : Nat) : (k.retreat n).content = k.content := by
  simp only [content, retreat, ← List.append_assoc, ← List.reverse_append, List.take_append_drop]

end Cursor

end Source

end TemplateMarkup
