import TemplateMarkup.Proofs.Json.Skipping
import Mathlib.Data.List.Nodup
import Mathlib.Data.List.Perm.Basic

/-!
# Records are read by the names of their members

An object is read as the record that its members say, in whatever order they stand, with
whichever members of other names between them, and without those that may be left out.

## The model

`Entry` is one member of a record as it has to stand in a text: its name, which texts say its
value, and whether it may be left out. `IsRecord entries s` says that the text `s` is an object
with these entries. A format and the entries of one value belong together (`Drafts`) if there is
a draft for every list of names, the one in which just these members have been read: reading a
member leads from a draft to the one with one name more, and with all names that are needed the
draft comes to the value.

## What is proved

* `readMember_told` — a member that belongs to no field changes nothing, one that belongs to a
  field adds its name.
* `readMembers_name` — reading members is to read a name, its member, and what comes behind that.
* `readMembers_append` — reading members adds their names, by induction on the members.
* `Drafts.reads` — a record is read as what its entries say.
-/

namespace TemplateMarkup

namespace Json

/-! ### What a record says -/

/-- A member of a record, as it has to stand in a text. -/
structure Entry where
  /-- What the member is called. -/
  name : String
  /-- Which texts say its value. -/
  tells : List Char → Prop
  /-- Whether it may be left out. -/
  mayBeMissing : Prop

/-- `Chosen entries ms`: each of the entries is one of the members, in this order, or is left
out. -/
inductive Chosen : List Entry → List Member → Prop where
  /-- Nothing is left to be chosen from. -/
  | nil : Chosen [] []
  /-- The first entry is the first member. -/
  | present {e : Entry} {es : List Entry} {s : List Char} {ms : List Member} : e.tells s →
      Chosen es ms → Chosen (e :: es) ((e.name, s) :: ms)
  /-- The first entry is left out. -/
  | missing {e : Entry} {es : List Entry} {ms : List Member} : e.mayBeMissing → Chosen es ms →
      Chosen (e :: es) ms

/-- The names of entries. -/
def namesOf (entries : List Entry) : List String := entries.map (·.name)

@[simp] theorem namesOf_cons (e : Entry) (es : List Entry) :
    namesOf (e :: es) = e.name :: namesOf es := rfl

/-- **Record**: the text `s` is an object whose members are the entries, less those that may be
left out, and others with other names and with values of whatever kind, all in any order. -/
def IsRecord (entries : List Entry) (s : List Char) : Prop :=
  ∃ ms known others, IsObject ms s ∧ ms.Perm (known ++ others) ∧ Chosen entries known ∧
    ∀ m ∈ others, m.1 ∉ namesOf entries ∧ IsValue m.2

/-- The names of the entries among the members, on top of those that have been read before. -/
def namesRead (entries : List Entry) (ms : List Member) (done : List String) : List String :=
  ((ms.filter (·.1 ∈ namesOf entries)).map (·.1)).reverse ++ done

/-- A member that says what an entry has to say, or has nothing to do with any of them. -/
def Told (entries : List Entry) (m : Member) : Prop :=
  (∃ e ∈ entries, e.name = m.1 ∧ e.tells m.2) ∨ m.1 ∉ namesOf entries ∧ IsValue m.2

theorem Chosen.sublist {entries : List Entry} {ms : List Member} (h : Chosen entries ms) :
    (ms.map (·.1)).Sublist (namesOf entries) := by
  induction h with
  | nil => exact .slnil
  | present _ _ ih => exact ih.cons_cons _
  | missing _ _ ih => exact ih.cons _

theorem Chosen.tells {entries : List Entry} {ms : List Member} (h : Chosen entries ms) :
    ∀ m ∈ ms, ∃ e ∈ entries, e.name = m.1 ∧ e.tells m.2 := by
  induction h with
  | nil => simp
  | @present e es s ms tells _ ih =>
    intro m hm
    rcases List.mem_cons.1 hm with rfl | hm
    · exact ⟨e, List.mem_cons_self, rfl, tells⟩
    · obtain ⟨e', he', h⟩ := ih m hm
      exact ⟨e', List.mem_cons_of_mem e he', h⟩
  | @missing e es ms _ _ ih =>
    intro m hm
    obtain ⟨e', he', h⟩ := ih m hm
    exact ⟨e', List.mem_cons_of_mem e he', h⟩

theorem Chosen.mem_names {entries : List Entry} {ms : List Member} (h : Chosen entries ms) :
    ∀ m ∈ ms, m.1 ∈ namesOf entries :=
  fun _ hm => h.sublist.subset (List.mem_map_of_mem hm)

/-- Every entry is chosen or may be left out. -/
theorem Chosen.covers {entries : List Entry} {ms : List Member} (h : Chosen entries ms) :
    ∀ e ∈ entries, e.name ∈ ms.map (·.1) ∨ e.mayBeMissing := by
  induction h with
  | nil => simp
  | @present e es s ms _ _ ih =>
    intro e' he'
    rcases List.mem_cons.1 he' with rfl | he'
    · exact .inl List.mem_cons_self
    · exact (ih e' he').imp_left (List.mem_cons_of_mem _)
  | @missing e es ms missing _ ih =>
    intro e' he'
    rcases List.mem_cons.1 he' with rfl | he'
    · exact .inr missing
    · exact ih e' he'

theorem namesRead_cons (entries : List Entry) (m : Member) (ms : List Member)
    (done : List String) :
    namesRead entries (m :: ms) done = namesRead entries ms (namesRead entries [m] done) := by
  by_cases h : m.1 ∈ namesOf entries <;> simp [namesRead, h]

/-! ### Fields and entries -/

variable {σ α β : Type}

/-- A field belongs to an entry: it reads what the entry says into the drafts that do not have
it yet. -/
structure Fits (draft : List String → σ) (field : Field σ) (e : Entry) : Prop where
  /-- They have one name. -/
  name : field.name = e.name
  /-- A draft does not have what has not been read. -/
  unset : ∀ done, e.name ∉ done → field.isSet (draft done) = false
  /-- Reading the member adds its name. -/
  reads : ∀ done s, e.tells s → (field.read (draft done)).Reads s (draft (e.name :: done))

/-- What a draft has of a member with the value `b` when the members `done` have been read. -/
def readIn (done : List String) (name : String) (b : β) : Option β :=
  if name ∈ done then some b else none

@[simp] theorem readIn_cons_self (done : List String) (name : String) (b : β) :
    readIn (name :: done) name b = some b := by simp [readIn]

theorem readIn_of_mem {done : List String} {name : String} (h : name ∈ done) (b : β) :
    readIn done name b = some b := if_pos h

theorem readIn_of_notMem {done : List String} {name : String} (h : name ∉ done) (b : β) :
    readIn done name b = none := if_neg h

/-- Reading one member says nothing of another. -/
theorem readIn_cons_of_ne {name other : String} (h : name ≠ other) (done : List String) (b : β) :
    readIn (other :: done) name b = readIn done name b := by simp [readIn, h]

/-- A member that is as it is by default may be left out. -/
theorem getD_readIn {done : List String} {name : String} {b default : β}
    (h : name ∈ done ∨ b = default) : (readIn done name b).getD default = b := by
  unfold readIn
  split
  · rfl
  · rename_i missing
    exact (h.resolve_left missing).symm

/-- A field with a place of its own in the draft belongs to an entry if that place has what has
been read of it. -/
theorem fits_of {draft : List String → σ} {name : String} {reader : Reader β}
    {get : σ → Option β} {set : σ → β → σ} {tells : List Char → Prop} {mayBeMissing : Prop} (b : β)
    (has : ∀ done, get (draft done) = readIn done name b)
    (adds : ∀ done, set (draft done) b = draft (name :: done))
    (reads : ∀ s, tells s → reader.Reads s b) :
    Fits draft (.of name reader get set) ⟨name, tells, mayBeMissing⟩ where
  name := rfl
  unset done h := by simp [Field.of, has, readIn_of_notMem h]
  reads done s h := by
    have read := (reads s h).map (set (draft done))
    rw [adds] at read
    exact read

/-- A format and the entries of a value belong together. -/
structure Drafts (f : RecordFormat σ α) (entries : List Entry) (a : α)
    (draft : List String → σ) : Prop where
  /-- At first nothing has been read. -/
  blank : draft [] = f.blank
  /-- Every field has its entry. -/
  fits : List.Forall₂ (Fits draft) f.fields entries
  /-- No two entries have one name. -/
  nodup : (namesOf entries).Nodup
  /-- When all has been read that may not be left out, the draft comes to the value. -/
  finish : ∀ done, (∀ e ∈ entries, e.name ∈ done ∨ e.mayBeMissing) → f.finish (draft done) = some a

/-! ### One member -/

/-- The field of an entry is found by its name. -/
theorem find?_of_fits {draft : List String → σ} {fields : List (Field σ)} {entries : List Entry}
    (h : List.Forall₂ (Fits draft) fields entries) (nodup : (namesOf entries).Nodup) {e : Entry}
    (he : e ∈ entries) :
    ∃ field, fields.find? (·.name = e.name) = some field ∧ Fits draft field e := by
  induction h with
  | nil => simp at he
  | @cons field e' fields entries fits _ ih =>
    rw [namesOf_cons] at nodup
    obtain ⟨notIn, nodup⟩ := List.nodup_cons.1 nodup
    rcases List.mem_cons.1 he with rfl | he
    · exact ⟨field, by simp [fits.name], fits⟩
    · have ne : e'.name ≠ e.name := by
        intro same
        have mem : e.name ∈ namesOf entries := List.mem_map_of_mem he
        exact notIn (same ▸ mem)
      obtain ⟨field', found, fits'⟩ := ih nodup he
      refine ⟨field', ?_, fits'⟩
      rw [List.find?_cons_of_neg (by simp [fits.name, ne])]
      exact found

theorem find?_eq_none_of_fits {draft : List String → σ} {fields : List (Field σ)}
    {entries : List Entry} (h : List.Forall₂ (Fits draft) fields entries) {name : String}
    (hn : name ∉ namesOf entries) : fields.find? (·.name = name) = none := by
  induction h with
  | nil => rfl
  | @cons field e fields entries fits _ ih =>
    have ne : e.name ≠ name := fun eq => hn (eq ▸ List.mem_cons_self)
    rw [List.find?_cons_of_neg (by simp [fits.name, ne])]
    exact ih fun mem => hn (List.mem_cons_of_mem e.name mem)

/-- **One member**: its name is added if it belongs to a field, and nothing else happens. -/
theorem readMember_told {f : RecordFormat σ α} {entries : List Entry} {a : α}
    {draft : List String → σ} (hd : Drafts f entries a draft) {m : Member} (hm : Told entries m)
    {done : List String} (nodup : (namesRead entries [m] done).Nodup)
    {between behind rest : List Char} (hbetween : Blanks between) (hbehind : Blanks behind)
    (hr : Ends rest) :
    RecordFormat.readMember f.fields m.1 (draft done)
        (between ++ ':' :: (behind ++ (m.2 ++ rest))) =
      .ok (draft (namesRead entries [m] done), rest) := by
  rcases hm with ⟨e, he, name, tells⟩ | ⟨unknown, value⟩
  · obtain ⟨field, found, fits⟩ := find?_of_fits hd.fits hd.nodup he
    have known : m.1 ∈ namesOf entries := name ▸ List.mem_map_of_mem he
    have names : namesRead entries [m] done = e.name :: done := by simp [namesRead, known, name]
    rw [names] at nodup
    have unset := fits.unset done (List.nodup_cons.1 nodup).1
    have read := fits.reads done m.2 tells hbehind hr
    rw [names, ← name]
    simp [RecordFormat.readMember, found, unset, colon_append hbetween, Except.bind, read]
  · have names : namesRead entries [m] done = done := by simp [namesRead, unknown]
    have skip := skipValue_append value hbehind hr
    rw [names]
    simp [RecordFormat.readMember, find?_eq_none_of_fits hd.fits unknown, colon_append hbetween,
      Except.bind, skip, Except.map]

/-! ### Many members -/

/-- Goes on behind a member: to the end of the object, or to a comma and the next name. -/
def readNext (fields : List (Field σ)) (draft : σ) (s : List Char) : Reading σ :=
  match dropBlanks s with
  | [] => .error .cutShort
  | c :: r =>
    if c = '}' then .ok (draft, r)
    else if c = ',' then
      match dropBlanks r with
      | [] => .error .cutShort
      | c :: r =>
        if c = '"' then RecordFormat.readMembers fields draft r else .error .malformed
    else .error .malformed

theorem readNext_closing (fields : List (Field σ)) (draft : σ) {after : List Char}
    (h : Blanks after) (rest : List Char) :
    readNext fields draft (after ++ '}' :: rest) = .ok (draft, rest) := by
  rw [readNext, dropBlanks_append_cons h (by decide)]
  simp

theorem readNext_comma (fields : List (Field σ)) (draft : σ) {after rest t : List Char}
    (h : Blanks after) (start : dropBlanks rest = '"' :: t) :
    readNext fields draft (after ++ ',' :: rest) = RecordFormat.readMembers fields draft t := by
  rw [readNext, dropBlanks_append_cons h (by decide)]
  simp [start]

/-- Reading members is to read the name of one, the member, and what comes behind it. -/
theorem readMembers_name (fields : List (Field σ)) (draft : σ) {name : String} {s : List Char}
    (h : Spells name.toList s) (t : List Char) :
    RecordFormat.readMembers fields draft (s ++ '"' :: t) =
      (RecordFormat.readMember fields name draft t).bind fun x => readNext fields x.1 x.2 := by
  rw [RecordFormat.readMembers_eq, scanQuoted_append h]
  simp only [String.ofList_toList]
  cases RecordFormat.readMember fields name draft t with
  | error e => rfl
  | ok x => rfl

variable (σ) in
/-- A member begins with the quote of its name, and reading it is to read its value and then what
comes behind it. -/
theorem IsMember.text {m : Member} {s : List Char} (h : IsMember m s) :
    ∃ t between behind after, Blanks between ∧ Blanks behind ∧ Blanks after ∧
      (∀ rest, dropBlanks (s ++ rest) = '"' :: (t ++ rest)) ∧
      ∀ (fields : List (Field σ)) (draft : σ) (rest : List Char),
        RecordFormat.readMembers fields draft (t ++ rest) =
          (RecordFormat.readMember fields m.1 draft
            (between ++ ':' :: (behind ++ (m.2 ++ (after ++ rest))))).bind
            fun x => readNext fields x.1 x.2 := by
  obtain @⟨name, value, before, s, between, behind, after, hbefore, spelled, hbetween, hbehind,
    hafter⟩ := h
  refine ⟨s ++ '"' :: (between ++ ':' :: (behind ++ (value ++ after))), between, behind, after,
    hbetween, hbehind, hafter, fun rest => ?_, fun fields draft rest => ?_⟩
  · simp only [inQuotes, List.append_assoc, List.cons_append, List.nil_append]
    exact dropBlanks_append_cons hbefore (by decide) _
  · simp only [List.append_assoc, List.cons_append]
    exact readMembers_name fields draft spelled _

/-- A member begins with the quote of its name, and its name is added when it is read. -/
theorem readMembers_member {f : RecordFormat σ α} {entries : List Entry} {a : α}
    {draft : List String → σ} (hd : Drafts f entries a draft) {m : Member} {s : List Char}
    (h : IsMember m s) (hm : Told entries m) {done : List String}
    (nodup : (namesRead entries [m] done).Nodup) :
    ∃ t, (∀ rest, dropBlanks (s ++ rest) = '"' :: (t ++ rest)) ∧
      (∀ rest, RecordFormat.readMembers f.fields (draft done) (t ++ '}' :: rest) =
        .ok (draft (namesRead entries [m] done), rest)) ∧
      ∀ rest u, dropBlanks rest = '"' :: u →
        RecordFormat.readMembers f.fields (draft done) (t ++ ',' :: rest) =
          RecordFormat.readMembers f.fields (draft (namesRead entries [m] done)) u := by
  obtain ⟨t, between, behind, after, hbetween, hbehind, hafter, start, run⟩ := h.text σ
  have member (rest : List Char) (hr : Ends (after ++ rest)) :
      RecordFormat.readMembers f.fields (draft done) (t ++ rest) =
        readNext f.fields (draft (namesRead entries [m] done)) (after ++ rest) := by
    rw [run, readMember_told hd hm nodup hbetween hbehind hr]
    rfl
  refine ⟨t, start, fun rest => ?_, fun rest u next => ?_⟩
  · rw [member ('}' :: rest) (ends_append hafter (ends_closer .curly rest))]
    exact readNext_closing f.fields _ hafter rest
  · rw [member (',' :: rest) (ends_append hafter (ends_comma rest))]
    exact readNext_comma f.fields _ hafter next

/-- **Reading members** adds the names of those that belong to fields. The induction is on the
members; that none is read twice is said of all names together, those read before included. -/
theorem readMembers_append {f : RecordFormat σ α} {entries : List Entry} {a : α}
    {draft : List String → σ} (hd : Drafts f entries a draft) {ms : List Member} {s : List Char}
    (h : AreMembers ms s) (hms : ∀ m ∈ ms, Told entries m) {done : List String}
    (nodup : (namesRead entries ms done).Nodup) :
    ∃ t, (∀ rest, dropBlanks (s ++ rest) = '"' :: (t ++ rest)) ∧
      ∀ rest, RecordFormat.readMembers f.fields (draft done) (t ++ '}' :: rest) =
        .ok (draft (namesRead entries ms done), rest) := by
  induction h generalizing done with
  | @one m s hm =>
    obtain ⟨t, start, last, -⟩ := readMembers_member hd hm (hms m (by simp)) nodup
    exact ⟨t, start, last⟩
  | @more m ms s s' hm _ ih =>
    rw [namesRead_cons] at nodup ⊢
    have first : (namesRead entries [m] done).Nodup := nodup.of_append_right
    obtain ⟨t, start, -, next⟩ := readMembers_member hd hm (hms m (by simp)) first
    obtain ⟨u, start', run⟩ := ih (fun m' hm' => hms m' (List.mem_cons_of_mem m hm')) nodup
    refine ⟨t ++ ',' :: s', fun rest => ?_, fun rest => ?_⟩
    · simp only [List.append_assoc, List.cons_append]
      exact start _
    · simp only [List.append_assoc, List.cons_append]
      rw [next _ _ (start' _), run]

/-! ### Records -/

/-- What is known of the members of a record when they are read. -/
theorem IsRecord.members {entries : List Entry} {s : List Char} (h : IsRecord entries s)
    (nodup : (namesOf entries).Nodup) :
    ∃ ms, IsObject ms s ∧ (∀ m ∈ ms, Told entries m) ∧ (namesRead entries ms []).Nodup ∧
      ∀ e ∈ entries, e.name ∈ namesRead entries ms [] ∨ e.mayBeMissing := by
  obtain ⟨ms, known, others, object, perm, chosen, unknown⟩ := h
  have kept : (known ++ others).filter (·.1 ∈ namesOf entries) = known := by
    rw [List.filter_append, List.filter_eq_self.2 fun m hm => by simpa using chosen.mem_names m hm,
      List.filter_eq_nil_iff.2 fun m hm => by simpa using (unknown m hm).1, List.append_nil]
  have names : (namesRead entries ms []).Perm (known.map (·.1)) := by
    have filtered := perm.filter (·.1 ∈ namesOf entries)
    rw [kept] at filtered
    rw [namesRead, List.append_nil]
    exact (List.reverse_perm _).trans (filtered.map _)
  refine ⟨ms, object, fun m hm => ?_, ?_, fun e he => ?_⟩
  · rcases List.mem_append.1 (perm.mem_iff.1 hm) with hm | hm
    · exact .inl (chosen.tells m hm)
    · exact .inr (unknown m hm)
  · exact names.nodup_iff.2 (nodup.sublist chosen.sublist)
  · exact (chosen.covers e he).imp_left names.mem_iff.2

/-- Reading an object is to read its members, if it has any. -/
theorem IsObject.text {ms : List Member} {s : List Char} (h : IsObject ms s)
    (f : RecordFormat σ α) :
    ∃ t, s = '{' :: t ∧
      (ms = [] ∧ (∀ rest, RecordFormat.readObject f (t ++ rest) = .ok (f.blank, rest)) ∨
        ∃ s', AreMembers ms s' ∧ ∀ rest u, dropBlanks (s' ++ '}' :: rest) = '"' :: u →
          RecordFormat.readObject f (t ++ rest) = RecordFormat.readMembers f.fields f.blank u) := by
  cases h with
  | @empty blanks hblanks =>
    refine ⟨blanks ++ ['}'], rfl, .inl ⟨rfl, fun rest => ?_⟩⟩
    have closing : dropBlanks (blanks ++ '}' :: rest) = '}' :: rest :=
      dropBlanks_append_cons hblanks (by decide) rest
    simp [RecordFormat.readObject, closing]
  | @members _ s hs =>
    refine ⟨s ++ ['}'], rfl, .inr ⟨s, hs, fun rest u start => ?_⟩⟩
    simp only [RecordFormat.readObject, List.append_assoc, List.cons_append, List.nil_append, start]
    rfl

theorem readObject_append {f : RecordFormat σ α} {entries : List Entry} {a : α}
    {draft : List String → σ} (hd : Drafts f entries a draft) {ms : List Member} {s : List Char}
    (h : IsObject ms s) (hms : ∀ m ∈ ms, Told entries m)
    (nodup : (namesRead entries ms []).Nodup) (rest : List Char) :
    ∃ t, s = '{' :: t ∧
      RecordFormat.readObject f (t ++ rest) = .ok (draft (namesRead entries ms []), rest) := by
  obtain ⟨t, rfl, ⟨rfl, run⟩ | ⟨s, hs, run⟩⟩ := h.text f
  · refine ⟨t, rfl, ?_⟩
    rw [run, ← hd.blank]
    rfl
  · obtain ⟨u, start, run'⟩ := readMembers_append hd hs hms nodup
    refine ⟨t, rfl, ?_⟩
    rw [run _ _ (start _), ← hd.blank, run']

/-- **A record is read** as what its entries say. -/
theorem Drafts.reads {f : RecordFormat σ α} {entries : List Entry} {a : α}
    {draft : List String → σ} (hd : Drafts f entries a draft) {s : List Char}
    (h : IsRecord entries s) : f.reader.Reads s a := by
  intro before rest hb _
  obtain ⟨ms, object, told, nodup, complete⟩ := h.members hd.nodup
  obtain ⟨t, rfl, read⟩ := readObject_append hd object told nodup rest
  have start : dropBlanks (before ++ '{' :: (t ++ rest)) = '{' :: (t ++ rest) :=
    dropBlanks_append_cons hb (by decide) _
  simp only [RecordFormat.reader, RecordFormat.readRecord, List.cons_append, start, if_true, read,
    Except.bind, RecordFormat.finished, hd.finish _ complete]

end Json

end TemplateMarkup
