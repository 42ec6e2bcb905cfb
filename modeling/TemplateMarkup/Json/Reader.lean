/-!
# Reading from left to right

A JSON text is read once, from left to right, by readers that take what they need from
the front of the text and hand on the rest. The first thing that is wrong ends the
reading, so what comes later cannot change what is said of it.

## The model

`Fault` has the three ways in which reading can end early. A `Reader` is a function from
a text to a value and the rest of the text, with the promise that the rest is never
longer than the text: loops over readers end because of it.
-/

namespace TemplateMarkup

namespace Json

/-- Why a text could not be read. -/
inductive Fault where
  /-- The text ends too early. -/
  | cutShort
  /-- The text does not go on as JSON, or goes on after its value. -/
  | malformed
  /-- The value is JSON, but not of the kind that is wanted. -/
  | mismatched
  deriving DecidableEq

/-- A value and the rest of the text, or what is wrong. -/
abbrev Reading (α : Type) := Except Fault (α × List Char)

/-! ### Single characters and words -/

/-- The characters that may stand between the parts of a text. -/
def isBlank (c : Char) : Bool := c = ' ' || c = '\t' || c = '\n' || c = '\r'

/-- The text behind its leading blanks. -/
def dropBlanks (s : List Char) : List Char := s.dropWhile isBlank

theorem length_dropBlanks_le (s : List Char) : (dropBlanks s).length ≤ s.length :=
  (List.dropWhile_sublist _).length_le

theorem length_lt_of_dropBlanks {s r : List Char} {c : Char} (h : dropBlanks s = c :: r) :
    r.length < s.length := by
  have := length_dropBlanks_le s
  rw [h] at this
  simp only [List.length_cons] at this
  omega

/-- Takes a word that has to come next, character by character. -/
def expect : List Char → List Char → Except Fault (List Char)
  | [], s => .ok s
  | _ :: _, [] => .error .cutShort
  | w :: word, c :: s => if c = w then expect word s else .error .malformed

theorem length_expect {word s r : List Char} (h : expect word s = .ok r) :
    r.length ≤ s.length := by
  induction word generalizing s with
  | nil => simp [expect] at h; simp [h]
  | cons w word ih =>
    cases s with
    | nil => simp [expect] at h
    | cons c s =>
      simp only [expect] at h
      split at h
      · have := ih h
        simp only [List.length_cons]
        omega
      · simp at h

theorem expect_append (word s : List Char) : expect word (word ++ s) = .ok s := by
  induction word with
  | nil => rfl
  | cons w word ih => simp [expect, ih]

/-- Takes the colon behind a name. -/
def colon (s : List Char) : Except Fault (List Char) :=
  match dropBlanks s with
  | [] => .error .cutShort
  | c :: r => if c = ':' then .ok r else .error .malformed

theorem length_colon {s r : List Char} (h : colon s = .ok r) : r.length < s.length := by
  unfold colon at h
  split at h
  · simp at h
  · rename_i c t ht
    split at h
    · have := length_lt_of_dropBlanks ht
      rw [← Except.ok.inj h]
      exact this
    · simp at h

/-! ### Readers -/

/-- A reader of values. -/
structure Reader (α : Type) where
  /-- Reads a value from the front of a text. -/
  run : List Char → Reading α
  /-- The rest is never longer than the text. -/
  consumes : ∀ {s : List Char} {a : α} {r : List Char}, run s = .ok (a, r) → r.length ≤ s.length

namespace Reader

/-- Does something to every value that is read. -/
def map {α β : Type} (f : α → β) (p : Reader α) : Reader β where
  run s := (p.run s).map fun (a, r) => (f a, r)
  consumes {s b r} h := by
    cases hp : p.run s with
    | error e => simp [hp, Except.map] at h
    | ok x =>
      simp only [hp, Except.map, Except.ok.injEq, Prod.mk.injEq] at h
      rw [← h.2]
      exact p.consumes hp

/-- Reads a whole text, behind whose value only blanks may follow. -/
def whole {α : Type} (p : Reader α) (s : String) : Except Fault α :=
  match p.run s.toList with
  | .error e => .error e
  | .ok (a, r) => if dropBlanks r = [] then .ok a else .error .malformed

theorem whole_eq_ok_of_run {α : Type} {p : Reader α} {s : String} {a : α} {r : List Char}
    (h : p.run s.toList = .ok (a, r)) (hr : dropBlanks r = []) : p.whole s = .ok a := by
  simp [whole, h, hr]

end Reader

end Json

end TemplateMarkup
