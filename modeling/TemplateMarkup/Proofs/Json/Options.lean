import TemplateMarkup.Error
import TemplateMarkup.Proofs.Json.Records

/-!
# Options are decided by one member

Options are read from the text of an object that may say many other things, and they depend on
nothing in it but the values of its own members of one name. There may be one such member or none,
and its value has to be one of two words; anything else is an error. A member of that name further
in is not one of the object's own, and its name may be spelled in any way.

## The model

`IsObjectText ms text` says that a text is an object with the members `ms`, each with a value of
whatever kind, with blanks around it. `choices ms` are the texts of the values that decide.

A text that is refused has to be followed up to where it is refused. Reading is therefore compared
with a function that has no text to read (`takeMember`, member by member), which says what is read
and whether: the fault by which a text is refused is left out of the comparison.

## What is proved

* `Reader.gives_bool` — a truth value is read from one of two words, and from no other value.
* `readMembers_step` and `readMembers_foldlM` — one member is a step, and members are read one
  after the other: the first that is refused ends the reading.
* `Steps.gives` — an object is read as its members are.
* `foldlM_takeChoice_eq_some_iff` — of the values that decide there may be one at most.
* `options_decided_by_one_member` — when options can be read, and as what.
-/

namespace TemplateMarkup

namespace Json

variable {σ α β : Type}

/-! ### What a reading comes to -/

theorem toOption_bind {ε : Type} (x : Except ε α) (f : α → Except ε β) :
    (x.bind f).toOption = x.toOption.bind fun a => (f a).toOption := by
  cases x <;> rfl

theorem toOption_map {ε : Type} (x : Except ε α) (f : α → β) :
    (x.map f).toOption = x.toOption.map f := by
  cases x <;> rfl

namespace Reader

/-- **Gives**: wherever the text `v` stands, with blanks in front of it and with what ends a value
behind it, the reader comes to `x`: it reads a value and leaves what stands behind, or it refuses
the text. -/
def Gives (p : Reader α) (v : List Char) (x : Option α) : Prop :=
  ∀ ⦃before rest⦄, Blanks before → Ends rest →
    (p.run (before ++ (v ++ rest))).toOption = x.map (·, rest)

theorem Reads.gives {p : Reader α} {v : List Char} {a : α} (h : p.Reads v a) :
    p.Gives v (some a) := by
  intro before rest hb hr
  rw [h hb hr]
  rfl

/-- What a text comes to anywhere, it comes to as a whole text, with any blanks around it. -/
theorem Gives.whole {p : Reader α} {v : List Char} {x : Option α} (h : p.Gives v x)
    {before after : List Char} (hb : Blanks before) (ha : Blanks after) :
    (p.whole (String.ofList (before ++ (v ++ after)))).toOption = x := by
  obtain ⟨ends, dropped⟩ := ha.ends
  have run := h hb ends
  rw [Reader.whole, String.toList_ofList]
  cases hp : p.run (before ++ (v ++ after)) with
  | error e =>
    rw [hp] at run
    exact Option.map_eq_none_iff.1 run.symm ▸ rfl
  | ok y =>
    rw [hp] at run
    obtain ⟨a, rfl, rfl⟩ := Option.map_eq_some_iff.1 run.symm
    simp only [dropped, if_true]
    rfl

end Reader

/-! ### Truth values -/

/-- The truth value that a text stands for, if it is one of the two words for them. -/
def truth? (v : List Char) : Option Bool :=
  if v = "true".toList then some true else if v = "false".toList then some false else none

theorem truth?_eq_some_iff (v : List Char) (b : Bool) : truth? v = some b ↔ v = writeBool b := by
  unfold truth?
  split
  · next h => subst h; cases b <;> decide
  · next h =>
    split
    · next h => subst h; cases b <;> decide
    · next h' => cases b <;> simp [writeBool] <;> assumption

/-- A value that begins like one of the two words is this word. -/
theorem IsValue.eq_word {v : List Char} (h : IsValue v)
    (hv : v.head? = some 't' ∨ v.head? = some 'f') : v ∈ ["true".toList, "false".toList] := by
  cases h with
  | word h =>
    obtain rfl | h := List.mem_cons.1 h
    · exact absurd hv (by decide)
    · exact h
  | numeral h =>
    obtain ⟨c, t, rfl, first⟩ := h.begins
    simp only [List.head?_cons, Option.some.injEq] at hv
    obtain rfl | rfl := hv
    · exact absurd first (by decide)
    · exact absurd first (by decide)
  | string _ => exact absurd hv (by simp [inQuotes])
  | @empty b => exact absurd hv (by cases b <;> simp [Bracket.opener])
  | @filled b => exact absurd hv (by cases b <;> simp [Bracket.opener])

/-- **A truth value is read from one of two words**, and from no other value. -/
theorem Reader.gives_bool {v : List Char} (h : IsValue v) : Reader.bool.Gives v (truth? v) := by
  by_cases hv : v ∈ ["true".toList, "false".toList]
  · obtain rfl | rfl : v = "true".toList ∨ v = "false".toList := by simpa using hv
    · exact (Reader.reads_bool true).gives
    · exact (Reader.reads_bool false).gives
  · intro before rest hb _
    have first := mt h.eq_word hv
    obtain ⟨c, t, rfl, hc⟩ := h.begins
    simp only [List.mem_cons, List.not_mem_nil, or_false, not_or] at hv
    simp only [List.head?_cons, Option.some.injEq, not_or] at first
    rw [truth?, if_neg hv.1, if_neg hv.2]
    simp only [Reader.bool, scanBool, List.cons_append, dropBlanks_append_cons hb hc.not_blank,
      first, if_false]
    rfl

/-! ### Members one after the other -/

/-- **Steps**: behind its name, every member is read as `step` says: it leads to another draft and
leaves what stands behind it, or it is refused. -/
def Steps (fields : List (Field σ)) (step : σ → Member → Option σ) : Prop :=
  ∀ (d : σ) (m : Member), IsValue m.2 → ∀ ⦃between behind rest⦄, Blanks between → Blanks behind →
    Ends rest →
    (RecordFormat.readMember fields m.1 d (between ++ ':' :: (behind ++ (m.2 ++ rest)))).toOption =
      (step d m).map (·, rest)

/-- One member is read as a step, and then what comes behind it. -/
theorem readMembers_step {fields : List (Field σ)} {step : σ → Member → Option σ}
    (hstep : Steps fields step) {m : Member} {s : List Char} (h : IsMember m s)
    (hvalue : IsValue m.2) :
    ∃ t after, Blanks after ∧ (∀ rest, dropBlanks (s ++ rest) = '"' :: (t ++ rest)) ∧
      ∀ d rest, Ends rest → (RecordFormat.readMembers fields d (t ++ rest)).toOption =
        (step d m).bind fun d' => (readNext fields d' (after ++ rest)).toOption := by
  obtain ⟨t, between, behind, after, hbetween, hbehind, hafter, start, run⟩ := h.text σ
  refine ⟨t, after, hafter, start, fun d rest hr => ?_⟩
  have member := hstep d m hvalue hbetween hbehind (ends_append hafter hr)
  rw [run, toOption_bind, member]
  cases step d m <;> rfl

/-- **Members are read one after the other**, and the first that is refused ends the reading. -/
theorem readMembers_foldlM {fields : List (Field σ)} {step : σ → Member → Option σ}
    (hstep : Steps fields step) {ms : List Member} {s : List Char} (h : AreMembers ms s)
    (hvalues : ∀ m ∈ ms, IsValue m.2) :
    ∃ t, (∀ rest, dropBlanks (s ++ rest) = '"' :: (t ++ rest)) ∧
      ∀ d rest, (RecordFormat.readMembers fields d (t ++ '}' :: rest)).toOption =
        (ms.foldlM step d).map (·, rest) := by
  induction h with
  | @one m s hm =>
    obtain ⟨t, after, hafter, start, run⟩ := readMembers_step hstep hm (hvalues m (by simp))
    refine ⟨t, start, fun d rest => ?_⟩
    rw [run d ('}' :: rest) (ends_closer .curly rest), List.foldlM_cons]
    simp only [readNext_closing fields _ hafter]
    cases step d m <;> rfl
  | @more m ms s s' hm _ ih =>
    obtain ⟨t, after, hafter, start, run⟩ := readMembers_step hstep hm (hvalues m (by simp))
    obtain ⟨t', start', run'⟩ := ih fun m' hm' => hvalues m' (List.mem_cons_of_mem m hm')
    refine ⟨t ++ ',' :: s', fun rest => ?_, fun d rest => ?_⟩
    · simp only [List.append_assoc, List.cons_append]
      exact start _
    · simp only [List.append_assoc, List.cons_append]
      rw [run d _ (ends_comma _), List.foldlM_cons]
      simp only [readNext_comma fields _ hafter (start' _), run']
      cases step d m <;> rfl

/-- **An object is read as its members are**, and as what they come to together. -/
theorem Steps.gives {f : RecordFormat σ α} {step : σ → Member → Option σ}
    (hstep : Steps f.fields step) {ms : List Member} {s : List Char} (h : IsObject ms s)
    (hvalues : ∀ m ∈ ms, IsValue m.2) :
    f.reader.Gives s ((ms.foldlM step f.blank).bind f.finish) := by
  intro before rest hb _
  obtain ⟨t, rfl, object⟩ : ∃ t, s = '{' :: t ∧
      (RecordFormat.readObject f (t ++ rest)).toOption =
        (ms.foldlM step f.blank).map (·, rest) := by
    obtain ⟨t, rfl, ⟨rfl, run⟩ | ⟨s, hs, run⟩⟩ := h.text f
    · refine ⟨t, rfl, ?_⟩
      rw [run]
      rfl
    · obtain ⟨u, start, run'⟩ := readMembers_foldlM hstep hs hvalues
      refine ⟨t, rfl, ?_⟩
      rw [run _ _ (start _)]
      exact run' f.blank rest
  have start : dropBlanks (before ++ '{' :: (t ++ rest)) = '{' :: (t ++ rest) :=
    dropBlanks_append_cons hb (by decide) _
  simp only [RecordFormat.reader, RecordFormat.readRecord, List.cons_append, start, if_true,
    toOption_bind, object]
  cases ms.foldlM step f.blank with
  | none => rfl
  | some d =>
    simp only [Option.map_some, Option.bind_some, RecordFormat.finished]
    cases f.finish d <;> rfl

/-! ### Options -/

/-- A value of the deciding member is taken if there was none before and it is a truth value. -/
def takeChoice (d : OptionsDraft) (v : List Char) : Option OptionsDraft :=
  if d.preserveWhitespaces.isSome then none else (truth? v).map fun b => ⟨some b⟩

/-- One member: the deciding one is taken, and any other is passed over. -/
def takeMember (d : OptionsDraft) (m : Member) : Option OptionsDraft :=
  if m.1 = "preserveWhitespaces" then takeChoice d m.2 else some d

/-- The texts of the values that decide: those of the object's own members of the name. -/
def choices (ms : List Member) : List (List Char) :=
  (ms.filter (·.1 = "preserveWhitespaces")).map (·.2)

/-- Only the deciding members matter. -/
theorem foldlM_takeMember (ms : List Member) (d : OptionsDraft) :
    ms.foldlM takeMember d = (choices ms).foldlM takeChoice d := by
  rw [choices, List.foldlM_map, List.foldlM_filter]
  simp only [decide_eq_true_eq]
  rfl

/-- **Of the values that decide there may be one at most**, and it has to be the word for the truth
value that is read. -/
theorem foldlM_takeChoice_eq_some_iff (vs : List (List Char)) (o : Options) :
    (vs.foldlM takeChoice {}).bind optionsFormat.finish = some o ↔
      vs = [] ∧ o = ⟨false⟩ ∨ vs = [writeBool o.preserveWhitespaces] := by
  obtain ⟨b⟩ := o
  rcases vs with _ | ⟨v, _ | ⟨w, vs⟩⟩
  · simp [optionsFormat, eq_comm]
  · have word : [v] = [writeBool b] ↔ truth? v = some b := by simp [truth?_eq_some_iff]
    rw [word]
    cases h : truth? v <;> simp [takeChoice, optionsFormat, h]
  · cases h : truth? v <;> simp [takeChoice, h]

/-- One member of the text of options is read as `takeMember` says. -/
theorem steps_takeMember : Steps optionsFormat.fields takeMember := by
  intro d m hm between behind rest hbetween hbehind hr
  by_cases known : m.1 = "preserveWhitespaces"
  · have value := Reader.gives_bool hm hbehind hr
    simp only [RecordFormat.readMember, optionsFormat, Field.of, known, takeMember, takeChoice]
    simp only [List.find?_cons, decide_true, if_true]
    by_cases done : d.preserveWhitespaces.isSome = true
    · simp only [done, if_true]
      rfl
    · simp only [done, Bool.false_eq_true, if_false, colon_append hbetween, Except.bind,
        Reader.map, toOption_map, value]
      cases truth? m.2 <;> rfl
  · have unknown : optionsFormat.fields.find? (·.name = m.1) = none := by
      simp [optionsFormat, Field.of, Ne.symm known]
    have skip := skipValue_append hm hbehind hr
    simp only [RecordFormat.readMember, unknown, colon_append hbetween, Except.bind, skip,
      Except.map, takeMember, known, if_false]
    rfl

/-- **Object text**: the text is an object with the members `ms`, whose values are of whatever kind,
and with blanks around it. -/
structure IsObjectText (ms : List Member) (text : String) : Prop where
  /-- There are only blanks around the object. -/
  object : ∃ before s after, text = String.ofList (before ++ (s ++ after)) ∧ Blanks before ∧
    IsObject ms s ∧ Blanks after
  /-- Every member has a value. -/
  values : ∀ m ∈ ms, IsValue m.2

/-- **What options are read** from an object text: those that its deciding values come to, one
after the other. -/
theorem toOption_ofJson {ms : List Member} {text : String} (h : IsObjectText ms text) :
    (Options.ofJson text).toOption =
      ((choices ms).foldlM takeChoice {}).bind optionsFormat.finish := by
  obtain ⟨⟨before, s, after, rfl, hbefore, object, hafter⟩, hvalues⟩ := h
  have read := (steps_takeMember.gives object hvalues).whole hbefore hafter
  rw [foldlM_takeMember] at read
  refine Eq.trans ?_ read
  change ((optionsFormat.reader.whole _).mapError Error.invalidOptions).toOption = _
  cases optionsFormat.reader.whole (String.ofList (before ++ (s ++ after))) <;> rfl

/-- Options are read if there is no deciding value, and then the default, or if there is one and it
is the word for what is read. -/
theorem ofJson_eq_ok_iff {ms : List Member} {text : String} (h : IsObjectText ms text)
    (o : Options) :
    Options.ofJson text = .ok o ↔
      choices ms = [] ∧ o = ⟨false⟩ ∨ choices ms = [writeBool o.preserveWhitespaces] := by
  have ok : Options.ofJson text = .ok o ↔ (Options.ofJson text).toOption = some o := by
    cases Options.ofJson text <;> simp [Except.toOption]
  rw [ok, toOption_ofJson h, foldlM_takeChoice_eq_some_iff]

/-- **Options are decided by one member** of the object that a text is: they are read if the object
has one member of the name at most, however it is spelled, with one of two words for its value. What
else the text says does not matter, and every other such text is an error of one kind. -/
theorem options_decided_by_one_member {ms : List Member} {text : String}
    (h : IsObjectText ms text) :
    ((∃ o, Options.ofJson text = .ok o) ↔
      (choices ms).length ≤ 1 ∧ ∀ v ∈ choices ms, v = "true".toList ∨ v = "false".toList) ∧
    (∀ o, Options.ofJson text = .ok o ↔
      choices ms = [] ∧ o = ⟨false⟩ ∨ choices ms = [writeBool o.preserveWhitespaces]) ∧
    ((¬ ∃ o, Options.ofJson text = .ok o) →
      ∃ fault, Options.ofJson text = .error (.invalidOptions fault)) ∧
    ∀ ms' text', IsObjectText ms' text' → (choices ms').Perm (choices ms) →
      ∀ o, Options.ofJson text' = .ok o ↔ Options.ofJson text = .ok o := by
  refine ⟨⟨?_, ?_⟩, ofJson_eq_ok_iff h, fun refused => ?_, fun ms' text' h' perm o => ?_⟩
  · rintro ⟨⟨b⟩, read⟩
    obtain ⟨none, -⟩ | one := (ofJson_eq_ok_iff h _).1 read
    · simp [none]
    · cases b <;> simp [one, writeBool]
  · rintro ⟨atMost, words⟩
    have read := ofJson_eq_ok_iff h
    generalize choices ms = vs at atMost words read
    rcases vs with _ | ⟨v, _ | ⟨w, vs⟩⟩
    · exact ⟨⟨false⟩, (read _).2 (.inl ⟨rfl, rfl⟩)⟩
    · obtain rfl | rfl := words v List.mem_cons_self
      · exact ⟨⟨true⟩, (read _).2 (.inr rfl)⟩
      · exact ⟨⟨false⟩, (read _).2 (.inr rfl)⟩
    · simp at atMost
  · rw [Options.ofJson] at refused ⊢
    cases hread : (Json.read text : Except Fault Options) with
    | ok o => exact absurd ⟨o, by rw [hread]; rfl⟩ refused
    | error fault => exact ⟨fault, rfl⟩
  · rw [ofJson_eq_ok_iff h, ofJson_eq_ok_iff h']
    have none : choices ms' = [] ↔ choices ms = [] :=
      ⟨fun e => (e ▸ perm).nil_eq.symm, fun e => (e ▸ perm).eq_nil⟩
    have one (v : List Char) : choices ms' = [v] ↔ choices ms = [v] :=
      ⟨fun e => (e ▸ perm).singleton_eq.symm, fun e => (e ▸ perm).eq_singleton⟩
    rw [none, one]

/-- A member further in does not count, and an escape in the name of one that does is no matter. -/
theorem options_decided_by_one_member_nested :
    IsObjectText
        [("a", "\x7b\"preserveWhitespaces\":0\x7d".toList), ("preserveWhitespaces", "true".toList)]
        "\x7b\"a\":\x7b\"preserveWhitespaces\":0\x7d,\"\\u0070reserveWhitespaces\": true\x7d" ∧
      Options.ofJson
        "\x7b\"a\":\x7b\"preserveWhitespaces\":0\x7d,\"\\u0070reserveWhitespaces\": true\x7d" =
          .ok ⟨true⟩ := by
  have zero : IsNumeral ([] ++ (['0'] ++ ([] ++ []))) := .parts (by simp) .zero .none .none
  have inner : IsString "preserveWhitespaces".toList :=
    (spells_flatMap_escape "preserveWhitespaces".toList).isString
  have nested : IsValue "\x7b\"preserveWhitespaces\":0\x7d".toList :=
    .filled (b := .curly) (.one (.name blanks_nil inner blanks_nil blanks_nil) (.numeral zero)
      blanks_nil)
  have other : Spells "a".toList "a".toList := spells_flatMap_escape "a".toList
  have first : IsMember ("a", "\x7b\"preserveWhitespaces\":0\x7d".toList)
      "\"a\":\x7b\"preserveWhitespaces\":0\x7d".toList :=
    .parts blanks_nil other blanks_nil blanks_nil blanks_nil
  have p : SpellsChar 'p' "\\u0070".toList :=
    .unit (.digits (i := 0) (j := 0) (k := 7) (l := 0) (.inl rfl) (.inl rfl) (.inl rfl) (.inl rfl))
  have tail : Spells "reserveWhitespaces".toList "reserveWhitespaces".toList :=
    spells_flatMap_escape "reserveWhitespaces".toList
  have escaped : Spells "preserveWhitespaces".toList ("\\u0070reserveWhitespaces").toList :=
    .cons p tail
  have blank : Blanks [' '] := by simp [Blanks]
  have second : IsMember ("preserveWhitespaces", "true".toList)
      "\"\\u0070reserveWhitespaces\": true".toList :=
    .parts blanks_nil escaped blanks_nil blank blanks_nil
  have text : IsObjectText
      [("a", "\x7b\"preserveWhitespaces\":0\x7d".toList), ("preserveWhitespaces", "true".toList)]
      "\x7b\"a\":\x7b\"preserveWhitespaces\":0\x7d,\"\\u0070reserveWhitespaces\": true\x7d" :=
    ⟨⟨[], _, [], rfl, blanks_nil, .members (.more first (.one second)), blanks_nil⟩,
      by simpa using ⟨nested, .word (by decide)⟩⟩
  exact ⟨text, ((options_decided_by_one_member text).2.1 _).2 (.inr rfl)⟩

end Json

end TemplateMarkup
