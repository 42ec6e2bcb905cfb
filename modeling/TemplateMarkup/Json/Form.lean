import TemplateMarkup.Json.Record

/-!
# Types with a JSON form

A type has a JSON form if its values can be written as JSON texts and read back. This
module has the class of such types, the pieces that written forms are made of, and the
reader of values that are chosen from a few names.
-/

namespace TemplateMarkup

namespace Json

/-- A type whose values are written as JSON and read back. -/
class Form (α : Type) where
  /-- Reads a value. -/
  reader : Reader α
  /-- Writes a value. -/
  write : α → List Char

/-- Reads a whole text as a value. -/
def read {α : Type} [Form α] (s : String) : Except Fault α := (Form.reader (α := α)).whole s

/-- Writes a value as a text. -/
def render {α : Type} [Form α] (a : α) : String := String.ofList (Form.write a)

/-! ### Writing -/

/-- A truth value as it is written. -/
def writeBool (b : Bool) : List Char :=
  if b then ['t', 'r', 'u', 'e'] else ['f', 'a', 'l', 's', 'e']

/-- A whole number as it is written. -/
def writeNat (n : Nat) : List Char := Nat.toDigits 10 n

/-- `null` as it is written. -/
def writeNull : List Char := ['n', 'u', 'l', 'l']

/-- A string that may be missing. -/
def writeOptional : Option String → List Char
  | none => writeNull
  | some s => quote s

/-- A member of an object: its name and its value. -/
def writeMember (m : String × List Char) : List Char := quote m.1 ++ ':' :: m.2

/-- An object with the given members, in their order and without blanks. -/
def writeObject (members : List (String × List Char)) : List Char :=
  '{' :: [','].intercalate (members.map writeMember) ++ ['}']

/-! ### Choices -/

/-- The value with the given name, where a value of another name would be a mismatch. -/
def choose {α : Type} (choices : List (String × α)) (name : String) : Except Fault α :=
  match choices.lookup name with
  | some a => .ok a
  | none => .error .mismatched

/-- Reads the name of a member. Only a string is a name, so that any other beginning is
malformed, whatever comes behind it. -/
def scanName (s : List Char) : Reading String :=
  match dropBlanks s with
  | [] => .error .cutShort
  | c :: r =>
    if c = '"' then (scanQuoted r).map fun (cs, r) => (String.ofList cs, r)
    else .error .malformed

theorem length_scanName {s r : List Char} {name : String} (h : scanName s = .ok (name, r)) :
    r.length < s.length := by
  unfold scanName at h
  split at h
  · simp at h
  · rename_i c t ht
    have l := length_lt_of_dropBlanks ht
    split at h
    · cases hq : scanQuoted t with
      | error e => simp [hq, Except.map] at h
      | ok x =>
        have := length_scanQuoted hq
        simp only [hq, Except.map, Except.ok.injEq, Prod.mk.injEq] at h
        rw [← h.2]
        omega
    · simp at h

/-- Reads one of a few values by its name: the name as a string, or an object whose one
member has the name and the value `null`. -/
def scanChoice {α : Type} (choices : List (String × α)) (s : List Char) : Reading α :=
  match dropBlanks s with
  | [] => .error .cutShort
  | c :: r =>
    if c = '"' then
      match scanQuoted r with
      | .error e => .error e
      | .ok (name, r) => (choose choices (String.ofList name)).map fun a => (a, r)
    else if c = '{' then
      match scanName r with
      | .error e => .error e
      | .ok (name, r) =>
        match choose choices name with
        | .error e => .error e
        | .ok a =>
          match (colon r).bind scanNull with
          | .error e => .error e
          | .ok r =>
            match dropBlanks r with
            | [] => .error .cutShort
            | c :: r => if c = '}' then .ok (a, r) else .error .malformed
    else .error .malformed

theorem length_scanChoice {α : Type} {choices : List (String × α)} {s r : List Char} {a : α}
    (h : scanChoice choices s = .ok (a, r)) : r.length < s.length := by
  unfold scanChoice at h
  split at h
  · simp at h
  · rename_i c t ht
    have l₁ := length_lt_of_dropBlanks ht
    split at h
    · split at h
      · simp at h
      · rename_i name u hq
        have l₂ := length_scanQuoted hq
        cases hc : choose choices (String.ofList name) with
        | error e => simp [hc, Except.map] at h
        | ok b =>
          simp only [hc, Except.map, Except.ok.injEq, Prod.mk.injEq] at h
          rw [← h.2]
          omega
    · split at h
      · split at h
        · simp at h
        · rename_i name u hs
          have l₂ := length_scanName hs
          split at h
          · simp at h
          · split at h
            · simp at h
            · rename_i v hv
              cases hc : colon u with
              | error e => simp [hc, Except.bind] at hv
              | ok w =>
                have l₃ := length_colon hc
                simp only [hc, Except.bind] at hv
                have l₄ := length_scanNull hv
                split at h
                · simp at h
                · rename_i hb
                  have l₅ := length_lt_of_dropBlanks hb
                  split at h
                  · simp only [Except.ok.injEq, Prod.mk.injEq] at h
                    rw [← h.2]
                    omega
                  · simp at h
      · simp at h

/-- The reader of one of a few values. -/
def Reader.choice {α : Type} (choices : List (String × α)) : Reader α :=
  ⟨scanChoice choices, fun h => Nat.le_of_lt (length_scanChoice h)⟩

/-- A field whose value is put into a draft by `set` and found in it by `get`. -/
def Field.of {σ β : Type} (name : String) (reader : Reader β) (get : σ → Option β)
    (set : σ → β → σ) : Field σ where
  name := name
  isSet draft := (get draft).isSome
  read draft := reader.map (set draft)

end Json

end TemplateMarkup
