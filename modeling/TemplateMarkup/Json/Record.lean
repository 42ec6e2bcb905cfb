import TemplateMarkup.Json.Scalar

/-!
# Records

A record is written as an object, its members in any order and others between them, or as
an array, its members by position.

## The model

The members that have been read so far are kept in a draft. A `Field` says what one
member is called, whether a draft has it already, and how to read it into a draft; a
`RecordFormat` has the fields, the empty draft, and what a finished draft comes to.

In an object a name that has been seen is refused at once, a name of no field is passed
over with its value, and the closing brace asks the draft whether all that is needed is
there. In an array the members come in the order of the fields; whether the last ones
may be left out is a choice of the format, and more than there are fields is malformed.

## What is proved

* `readMembers_eq` — how members are read one at a time.
* `length_readRecord` — a record takes at least one character, so records can be read
  inside records.
-/

namespace TemplateMarkup

namespace Json

/-- A member of a record. -/
structure Field (σ : Type) where
  /-- What it is called. -/
  name : String
  /-- Whether a draft has it. -/
  isSet : σ → Bool
  /-- Reads its value into a draft. -/
  read : σ → Reader σ

/-- How a record is written. -/
structure RecordFormat (σ α : Type) where
  /-- Its fields, in the order of an array. -/
  fields : List (Field σ)
  /-- The draft before anything has been read. -/
  blank : σ
  /-- What a draft comes to; `none` if a member is missing that is needed. -/
  finish : σ → Option α
  /-- Whether an array may end early. -/
  mayEndEarly : Bool

namespace RecordFormat

variable {σ α : Type}

/-! ### Objects -/

/-- Reads the value of a member behind its name: into the draft if it belongs to a field
that the draft does not have yet, past it if it belongs to none. -/
def readMember (fields : List (Field σ)) (name : String) (draft : σ) (s : List Char) :
    Reading σ :=
  match fields.find? (·.name = name) with
  | none => (colon s).bind fun r => (skipValue r).map fun r => (draft, r)
  | some f => if f.isSet draft then .error .mismatched else (colon s).bind (f.read draft).run

theorem length_readMember {fields : List (Field σ)} {name : String} {draft draft' : σ}
    {s r : List Char} (h : readMember fields name draft s = .ok (draft', r)) :
    r.length ≤ s.length := by
  unfold readMember at h
  split at h
  · cases hc : colon s with
    | error e => simp [hc, Except.bind] at h
    | ok t =>
      have := length_colon hc
      cases hv : skipValue t with
      | error e => simp [hc, hv, Except.bind, Except.map] at h
      | ok u =>
        have := length_skipValue hv
        simp only [hc, hv, Except.bind, Except.map, Except.ok.injEq, Prod.mk.injEq] at h
        rw [← h.2]
        omega
  · rename_i f _
    split at h
    · simp at h
    · cases hc : colon s with
      | error e => simp [hc, Except.bind] at h
      | ok t =>
        have := length_colon hc
        simp only [hc, Except.bind] at h
        have := (f.read draft).consumes h
        omega

/-- Reads members into a draft, from behind the opening quote of a name to behind the
closing brace. -/
def readMembers (fields : List (Field σ)) (draft : σ) (s : List Char) : Reading σ :=
  match _hq : scanQuoted s with
  | .error e => .error e
  | .ok (name, r) =>
    match _hm : readMember fields (String.ofList name) draft r with
    | .error e => .error e
    | .ok (draft, r) =>
      match _h₁ : dropBlanks r with
      | [] => .error .cutShort
      | c :: r =>
        if c = '}' then .ok (draft, r)
        else if c = ',' then
          match _h₂ : dropBlanks r with
          | [] => .error .cutShort
          | c :: r => if c = '"' then readMembers fields draft r else .error .malformed
        else .error .malformed
termination_by s.length
decreasing_by
  have := length_scanQuoted _hq
  have := length_readMember _hm
  have := length_lt_of_dropBlanks _h₁
  have := length_lt_of_dropBlanks _h₂
  omega

/-- Reading members, one at a time. -/
theorem readMembers_eq (fields : List (Field σ)) (draft : σ) (s : List Char) :
    readMembers fields draft s =
      match scanQuoted s with
      | .error e => .error e
      | .ok (name, r) =>
        match readMember fields (String.ofList name) draft r with
        | .error e => .error e
        | .ok (draft, r) =>
          match dropBlanks r with
          | [] => .error .cutShort
          | c :: r =>
            if c = '}' then .ok (draft, r)
            else if c = ',' then
              match dropBlanks r with
              | [] => .error .cutShort
              | c :: r => if c = '"' then readMembers fields draft r else .error .malformed
            else .error .malformed := by
  rw [readMembers]
  split <;> rename_i h <;> simp only [h]
  split <;> rename_i h <;> simp only [h]
  split <;> rename_i h <;> simp only [h]
  split
  · rfl
  · split
    · split <;> rename_i h <;> simp only [h]
    · rfl

theorem length_readMembers {fields : List (Field σ)} {draft draft' : σ} {s r : List Char}
    (h : readMembers fields draft s = .ok (draft', r)) : r.length < s.length := by
  fun_induction readMembers fields draft s with
  | case1 => simp at h
  | case2 => simp at h
  | case3 => simp at h
  | case4 _ _ _ _ hq _ _ hm _ hb =>
    have := length_scanQuoted hq
    have := length_readMember hm
    have := length_lt_of_dropBlanks hb
    simp only [Except.ok.injEq, Prod.mk.injEq] at h
    rw [← h.2]
    omega
  | case5 => simp at h
  | case6 _ _ _ _ hq _ _ hm _ _ hc _ hb ih =>
    have := length_scanQuoted hq
    have := length_readMember hm
    have := length_lt_of_dropBlanks hc
    have := length_lt_of_dropBlanks hb
    have := ih h
    omega
  | case7 => simp at h
  | case8 => simp at h

/-- Reads an object behind its opening brace. -/
def readObject (f : RecordFormat σ α) (s : List Char) : Reading σ :=
  match dropBlanks s with
  | [] => .error .cutShort
  | c :: r =>
    if c = '}' then .ok (f.blank, r)
    else if c = '"' then readMembers f.fields f.blank r
    else .error .malformed

/-! ### Arrays -/

/-- Reads the elements of an array behind its first one, up to behind the closing bracket:
one for each of the fields. -/
def readElements (mayEndEarly : Bool) : List (Field σ) → σ → List Char → Reading σ
  | [], draft, s =>
    match dropBlanks s with
    | [] => .error .cutShort
    | c :: r => if c = ']' then .ok (draft, r) else .error .malformed
  | field :: fields, draft, s =>
    match dropBlanks s with
    | [] => .error .cutShort
    | c :: r =>
      if c = ']' then if mayEndEarly then .ok (draft, r) else .error .mismatched
      else if c = ',' then
        match dropBlanks r with
        | [] => .error .cutShort
        | c :: r =>
          if c = ']' then .error .malformed
          else
            match (field.read draft).run (c :: r) with
            | .error e => .error e
            | .ok (draft, r) => readElements mayEndEarly fields draft r
      else .error .malformed

/-- Reads an array behind its opening bracket. -/
def readArray (f : RecordFormat σ α) (s : List Char) : Reading σ :=
  match f.fields with
  | [] => readElements f.mayEndEarly [] f.blank s
  | field :: fields =>
    match dropBlanks s with
    | [] => .error .cutShort
    | c :: r =>
      if c = ']' then if f.mayEndEarly then .ok (f.blank, r) else .error .mismatched
      else
        match (field.read f.blank).run (c :: r) with
        | .error e => .error e
        | .ok (draft, r) => readElements f.mayEndEarly fields draft r

theorem length_readElements {mayEndEarly : Bool} {fields : List (Field σ)} {draft draft' : σ}
    {s r : List Char} (h : readElements mayEndEarly fields draft s = .ok (draft', r)) :
    r.length < s.length := by
  induction fields generalizing draft s with
  | nil =>
    simp only [readElements] at h
    split at h
    · simp at h
    · rename_i ht
      have := length_lt_of_dropBlanks ht
      split at h
      · simp only [Except.ok.injEq, Prod.mk.injEq] at h
        rw [← h.2]
        exact this
      · simp at h
  | cons field fields ih =>
    simp only [readElements] at h
    split at h
    · simp at h
    · rename_i ht
      have := length_lt_of_dropBlanks ht
      split at h
      · split at h
        · simp only [Except.ok.injEq, Prod.mk.injEq] at h
          rw [← h.2]
          exact this
        · simp at h
      · split at h
        · split at h
          · simp at h
          · rename_i hu
            have := length_lt_of_dropBlanks hu
            split at h
            · simp at h
            · split at h
              · simp at h
              · rename_i hf
                have := (field.read draft).consumes hf
                have := ih h
                simp only [List.length_cons] at *
                omega
        · simp at h

theorem length_readArray {f : RecordFormat σ α} {draft : σ} {s r : List Char}
    (h : readArray f s = .ok (draft, r)) : r.length < s.length := by
  unfold readArray at h
  split at h
  · exact length_readElements h
  · rename_i field fields _
    split at h
    · simp at h
    · rename_i ht
      have := length_lt_of_dropBlanks ht
      split at h
      · split at h
        · simp only [Except.ok.injEq, Prod.mk.injEq] at h
          rw [← h.2]
          exact this
        · simp at h
      · split at h
        · simp at h
        · rename_i hf
          have := (field.read f.blank).consumes hf
          have := length_readElements h
          simp only [List.length_cons] at *
          omega

theorem length_readObject {f : RecordFormat σ α} {draft : σ} {s r : List Char}
    (h : readObject f s = .ok (draft, r)) : r.length < s.length := by
  unfold readObject at h
  split at h
  · simp at h
  · rename_i ht
    have := length_lt_of_dropBlanks ht
    split at h
    · simp only [Except.ok.injEq, Prod.mk.injEq] at h
      rw [← h.2]
      exact this
    · split at h
      · have := length_readMembers h
        omega
      · simp at h

/-! ### Records -/

/-- What a draft comes to, behind which `r` is left. -/
def finished (f : RecordFormat σ α) : σ × List Char → Reading α
  | (draft, r) =>
    match f.finish draft with
    | some a => .ok (a, r)
    | none => .error .mismatched

/-- Reads a record in either form. -/
def readRecord (f : RecordFormat σ α) (s : List Char) : Reading α :=
  match dropBlanks s with
  | [] => .error .cutShort
  | c :: r =>
    if c = '{' then (readObject f r).bind f.finished
    else if c = '[' then (readArray f r).bind f.finished
    else .error (mismatch (c :: r))

theorem finished_eq_ok {f : RecordFormat σ α} {d : σ × List Char} {a : α} {r : List Char}
    (h : f.finished d = .ok (a, r)) : f.finish d.1 = some a ∧ d.2 = r := by
  rcases d with ⟨draft, t⟩
  simp only [finished] at h
  split at h
  · rename_i b hb
    simp only [Except.ok.injEq, Prod.mk.injEq] at h
    exact ⟨by rw [hb, h.1], h.2⟩
  · simp at h

theorem length_readRecord {f : RecordFormat σ α} {s r : List Char} {a : α}
    (h : f.readRecord s = .ok (a, r)) : r.length < s.length := by
  unfold readRecord at h
  split at h
  · simp at h
  · rename_i c t ht
    have := length_lt_of_dropBlanks ht
    split at h
    · cases hd : readObject f t with
      | error e => simp [hd, Except.bind] at h
      | ok d =>
        have := length_readObject hd
        simp only [hd, Except.bind] at h
        have := (finished_eq_ok h).2
        rw [← this]
        omega
    · split at h
      · cases hd : readArray f t with
        | error e => simp [hd, Except.bind] at h
        | ok d =>
          have := length_readArray hd
          simp only [hd, Except.bind] at h
          have := (finished_eq_ok h).2
          rw [← this]
          omega
      · simp at h

/-- The reader of records of a format. -/
def reader (f : RecordFormat σ α) : Reader α :=
  ⟨f.readRecord, fun h => Nat.le_of_lt (length_readRecord h)⟩

end RecordFormat

end Json

end TemplateMarkup
