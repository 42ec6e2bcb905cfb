import TemplateMarkup.Json.Records
import TemplateMarkup.Proofs.Json.Records

/-!
# What is written is read back

Every value of this library that has a JSON form is read back from the text that is written for
it, and from every other text that says the same: one with the members of its objects in another
order, with blanks, with more members, without details that are none, or with its strings spelled
in another way.

## The model

`StandsFor s a` says which texts stand for a value. For a record it says so of its entries, whose
values may be records again; so members may change places at every level, and others may be added
there. A location has one number that is not a counter, its offset, and only an offset of 64 bits
is ever read; that is the one condition.

## What is proved

* `isRecord_writeObject` — an object that is written is a record.
* `roundTrips_of_reads` — a value is read back if the text that is written stands for it, and if
  every text that stands for it is read as it.
* `round_trips` — writing and reading back, for all seven types.
-/

namespace TemplateMarkup

namespace Json

/-! ### Objects that are written -/

theorem isMember_writeMember (m : Member) : IsMember m (writeMember m) := by
  have spelled := spells_flatMap_escape m.1.toList
  have text : writeMember m =
      [] ++ (inQuotes (m.1.toList.flatMap escape) ++ ([] ++ ':' :: ([] ++ (m.2 ++ [])))) := by
    simp only [List.nil_append, List.append_nil]
    rfl
  rw [text]
  exact .parts blanks_nil spelled blanks_nil blanks_nil blanks_nil

theorem areMembers_intercalate (m : Member) (ms : List Member) :
    AreMembers (m :: ms) ([','].intercalate ((m :: ms).map writeMember)) := by
  induction ms generalizing m with
  | nil =>
    have text : [','].intercalate ([m].map writeMember) = writeMember m := by simp
    rw [text]
    exact .one (isMember_writeMember m)
  | cons m' ms ih =>
    have text : [','].intercalate ((m :: m' :: ms).map writeMember) =
        writeMember m ++ ',' :: [','].intercalate ((m' :: ms).map writeMember) := by
      simp [List.intercalate]
    rw [text]
    exact .more (isMember_writeMember m) (ih m')

theorem isObject_writeObject (ms : List Member) : IsObject ms (writeObject ms) := by
  cases ms with
  | nil => exact .empty blanks_nil
  | cons m ms => exact .members (areMembers_intercalate m ms)

/-- An object that is written with the entries of a record, and with others, is that record. -/
theorem isRecord_writeObject_of_perm {entries : List Entry} {ms known others : List Member}
    (hperm : ms.Perm (known ++ others)) (hknown : Chosen entries known)
    (hothers : ∀ m ∈ others, m.1 ∉ namesOf entries ∧ IsValue m.2) :
    IsRecord entries (writeObject ms) :=
  ⟨ms, known, others, isObject_writeObject ms, hperm, hknown, hothers⟩

theorem isRecord_writeObject {entries : List Entry} {ms : List Member} (h : Chosen entries ms) :
    IsRecord entries (writeObject ms) :=
  isRecord_writeObject_of_perm (by rw [List.append_nil]) h (by simp)

/-! ### What texts stand for -/

/-- A type of whose values it is said which texts stand for them. -/
class HasTexts (α : Type) where
  /-- `StandsFor s a`: the text `s` stands for the value `a`. -/
  StandsFor : List Char → α → Prop

open HasTexts (StandsFor)

/-- A member that has to be there, and its value. -/
def Entry.needed {β : Type} [HasTexts β] (name : String) (b : β) : Entry :=
  ⟨name, (StandsFor · b), False⟩

instance : HasTexts Bool where
  StandsFor s b := s = writeBool b

instance : HasTexts Nat where
  StandsFor s n := s = writeNat n

instance : HasTexts String where
  StandsFor s t := Quotes s t

instance : HasTexts (Option String) where
  StandsFor s
    | none => s = writeNull
    | some t => Quotes s t

/-- The entries of options. Options that are as they are by default may leave theirs out. -/
def optionsEntries (o : Options) : List Entry :=
  [⟨"preserveWhitespaces", (StandsFor · o.preserveWhitespaces), o.preserveWhitespaces = false⟩]

instance : HasTexts Options where
  StandsFor s o := IsRecord (optionsEntries o) s

/-- The entries of notes for translators. -/
def i18nEntries (i : I18n) : List Entry :=
  [.needed "meaning" i.meaning, .needed "description" i.description,
   .needed "customId" i.customId]

instance : HasTexts I18n where
  StandsFor s i := IsRecord (i18nEntries i) s

/-- The entries of a file. -/
def fileEntries (f : Source.File) : List Entry :=
  [.needed "content" f.content, .needed "url" f.url]

instance : HasTexts Source.File where
  StandsFor s f := IsRecord (fileEntries f) s

/-- The entries of a location. -/
def locationEntries (l : Source.Location) : List Entry :=
  [.needed "file" l.file, .needed "offset" l.offset, .needed "line" l.line.toNat,
   .needed "col" l.column.toNat]

instance : HasTexts Source.Location where
  StandsFor s l := IsRecord (locationEntries l) s

/-- The entries of a span. If it has no details, nothing need be said of them. -/
def spanEntries (p : Source.Span) : List Entry :=
  [.needed "start" p.start, .needed "end" p.stop,
   ⟨"details", (StandsFor · p.details), p.details = none⟩]

instance : HasTexts Source.Span where
  StandsFor s p := IsRecord (spanEntries p) s

instance : HasTexts Severity where
  StandsFor s v := Quotes s (severityName v)

/-- The entries of a diagnostic. -/
def diagnosticEntries (d : Diagnostic) : List Entry :=
  [.needed "span" d.span, .needed "msg" d.message, .needed "level" d.severity]

instance : HasTexts Diagnostic where
  StandsFor s d := IsRecord (diagnosticEntries d) s

/-! ### Writing -/

/-- A string is written in one of the ways to spell it. -/
theorem quotes_quote (t : String) : Quotes (quote t) t := .spelled (spells_flatMap_escape t.toList)

theorem standsFor_writeOptional (o : Option String) : StandsFor (writeOptional o) o := by
  cases o with
  | none => rfl
  | some t => exact quotes_quote t

theorem standsFor_write_options (o : Options) : StandsFor (Form.write o) o :=
  isRecord_writeObject (.present rfl .nil)

theorem standsFor_write_i18n (i : I18n) : StandsFor (Form.write i) i :=
  isRecord_writeObject
    (.present (quotes_quote i.meaning)
      (.present (quotes_quote i.description) (.present (quotes_quote i.customId) .nil)))

theorem standsFor_write_file (f : Source.File) : StandsFor (Form.write f) f :=
  isRecord_writeObject (.present (quotes_quote f.content) (.present (quotes_quote f.url) .nil))

theorem standsFor_write_location (l : Source.Location) : StandsFor (Form.write l) l :=
  isRecord_writeObject
    (.present (standsFor_write_file l.file) (.present rfl (.present rfl (.present rfl .nil))))

theorem standsFor_write_span (p : Source.Span) : StandsFor (Form.write p) p :=
  isRecord_writeObject
    (.present (standsFor_write_location p.start)
      (.present (standsFor_write_location p.stop)
        (.present (standsFor_writeOptional p.details) .nil)))

theorem standsFor_write_severity (v : Severity) : StandsFor (Form.write v) v :=
  quotes_quote (severityName v)

theorem standsFor_write_diagnostic (d : Diagnostic) : StandsFor (Form.write d) d :=
  isRecord_writeObject
    (.present (standsFor_write_span d.span)
      (.present (quotes_quote d.message) (.present (standsFor_write_severity d.severity) .nil)))

/-! ### Reading -/

/-- The draft of options in which the members `done` have been read. -/
def draftOptions (o : Options) (done : List String) : OptionsDraft :=
  ⟨readIn done "preserveWhitespaces" o.preserveWhitespaces⟩

theorem drafts_options (o : Options) :
    Drafts optionsFormat (optionsEntries o) o (draftOptions o) where
  blank := rfl
  fits := by
    refine .cons (fits_of o.preserveWhitespaces (fun _ => rfl) (fun _ => ?_) ?_) .nil
    · simp [draftOptions]
    · rintro s rfl
      exact Reader.reads_bool _
  nodup := by simp [namesOf, optionsEntries]
  finish done h := by
    have known : "preserveWhitespaces" ∈ done ∨ o.preserveWhitespaces = false := by
      simpa [optionsEntries] using h
    have value := getD_readIn known
    simp only [optionsFormat, draftOptions, value]

/-- The draft of notes for translators in which the members `done` have been read. -/
def draftI18n (i : I18n) (done : List String) : I18nDraft :=
  ⟨readIn done "meaning" i.meaning, readIn done "description" i.description,
    readIn done "customId" i.customId⟩

theorem drafts_i18n (i : I18n) : Drafts i18nFormat (i18nEntries i) i (draftI18n i) where
  blank := rfl
  fits := by
    refine .cons (fits_of i.meaning (fun _ => rfl) (fun _ => ?_) fun _ => Reader.reads_string)
      (.cons (fits_of i.description (fun _ => rfl) (fun _ => ?_) fun _ => Reader.reads_string)
      (.cons (fits_of i.customId (fun _ => rfl) (fun _ => ?_) fun _ => Reader.reads_string) .nil))
    all_goals simp [draftI18n, readIn_cons_of_ne]
  nodup := by simp [namesOf, i18nEntries, Entry.needed]
  finish done h := by
    simp only [i18nEntries, Entry.needed, List.forall_mem_cons, or_false] at h
    obtain ⟨meaning, description, customId, -⟩ := h
    simp [i18nFormat, draftI18n, readIn_of_mem meaning, readIn_of_mem description,
      readIn_of_mem customId]

/-- The draft of a file in which the members `done` have been read. -/
def draftFile (f : Source.File) (done : List String) : FileDraft :=
  ⟨readIn done "content" f.content, readIn done "url" f.url⟩

theorem drafts_file (f : Source.File) : Drafts fileFormat (fileEntries f) f (draftFile f) where
  blank := rfl
  fits := by
    refine .cons (fits_of f.content (fun _ => rfl) (fun _ => ?_) fun _ => Reader.reads_string)
      (.cons (fits_of f.url (fun _ => rfl) (fun _ => ?_) fun _ => Reader.reads_string) .nil)
    all_goals simp [draftFile, readIn_cons_of_ne]
  nodup := by simp [namesOf, fileEntries, Entry.needed]
  finish done h := by
    simp only [fileEntries, Entry.needed, List.forall_mem_cons, or_false] at h
    obtain ⟨content, url, -⟩ := h
    simp [fileFormat, draftFile, readIn_of_mem content, readIn_of_mem url]

/-- An offset of 64 bits is read as a counter. -/
theorem reads_offset {n : Nat} (h : n < UInt64.size) :
    Reader.counter.Reads (writeNat n) (UInt64.ofNat n) := by
  have read := Reader.reads_counter (UInt64.ofNat n)
  rwa [UInt64.toNat_ofNat_of_lt' h] at read

/-- The draft of a location in which the members `done` have been read. -/
def draftLocation (l : Source.Location) (done : List String) : LocationDraft :=
  ⟨readIn done "file" l.file, readIn done "offset" (UInt64.ofNat l.offset),
    readIn done "line" l.line, readIn done "col" l.column⟩

theorem drafts_location {l : Source.Location} (hl : l.offset < UInt64.size) :
    Drafts locationFormat (locationEntries l) l (draftLocation l) where
  blank := rfl
  fits := by
    refine .cons (fits_of l.file (fun _ => rfl) (fun _ => ?_) fun _ => (drafts_file l.file).reads)
      (.cons (fits_of (UInt64.ofNat l.offset) (fun _ => rfl) (fun _ => ?_) ?_)
      (.cons (fits_of l.line (fun _ => rfl) (fun _ => ?_) ?_)
      (.cons (fits_of l.column (fun _ => rfl) (fun _ => ?_) ?_) .nil)))
    · simp [draftLocation, readIn_cons_of_ne]
    · simp [draftLocation, readIn_cons_of_ne]
    · rintro s rfl
      exact reads_offset hl
    · simp [draftLocation, readIn_cons_of_ne]
    · rintro s rfl
      exact Reader.reads_counter l.line
    · simp [draftLocation, readIn_cons_of_ne]
    · rintro s rfl
      exact Reader.reads_counter l.column
  nodup := by simp [namesOf, locationEntries, Entry.needed]
  finish done h := by
    simp only [locationEntries, Entry.needed, List.forall_mem_cons, or_false] at h
    obtain ⟨file, offset, line, column, -⟩ := h
    simp [locationFormat, draftLocation, readIn_of_mem file, readIn_of_mem offset,
      readIn_of_mem line, readIn_of_mem column, Nat.mod_eq_of_lt hl]

theorem reads_details {s : List Char} {details : Option String} (h : StandsFor s details) :
    Reader.optional.Reads s details := by
  cases details with
  | none =>
    obtain rfl : s = writeNull := h
    exact Reader.reads_optional_none
  | some t => exact Reader.reads_optional_some h

/-- The draft of a span in which the members `done` have been read. -/
def draftSpan (p : Source.Span) (done : List String) : SpanDraft :=
  ⟨readIn done "start" p.start, readIn done "end" p.stop, readIn done "details" p.details⟩

theorem drafts_span {p : Source.Span}
    (hp : p.start.offset < UInt64.size ∧ p.stop.offset < UInt64.size) :
    Drafts spanFormat (spanEntries p) p (draftSpan p) where
  blank := rfl
  fits := by
    refine .cons (fits_of p.start (fun _ => rfl) (fun _ => ?_) fun _ => (drafts_location hp.1).reads)
      (.cons (fits_of p.stop (fun _ => rfl) (fun _ => ?_) fun _ => (drafts_location hp.2).reads)
      (.cons (fits_of p.details (fun _ => rfl) (fun _ => ?_) fun _ => reads_details) .nil))
    all_goals simp [draftSpan, readIn_cons_of_ne]
  nodup := by simp [namesOf, spanEntries, Entry.needed]
  finish done h := by
    simp only [spanEntries, Entry.needed, List.forall_mem_cons, or_false] at h
    obtain ⟨start, stop, details, -⟩ := h
    simp [spanFormat, draftSpan, readIn_of_mem start, readIn_of_mem stop, getD_readIn details]

/-- A severity is found by its name. -/
theorem lookup_severityName (v : Severity) : severityNames.lookup (severityName v) = some v := by
  cases v <;> decide

theorem reads_severity {s : List Char} {v : Severity} (h : StandsFor s v) :
    (Reader.choice severityNames).Reads s v := Reader.reads_choice (lookup_severityName v) h

/-- The draft of a diagnostic in which the members `done` have been read. -/
def draftDiagnostic (d : Diagnostic) (done : List String) : DiagnosticDraft :=
  ⟨readIn done "span" d.span, readIn done "msg" d.message, readIn done "level" d.severity⟩

theorem drafts_diagnostic {d : Diagnostic}
    (hd : d.span.start.offset < UInt64.size ∧ d.span.stop.offset < UInt64.size) :
    Drafts diagnosticFormat (diagnosticEntries d) d (draftDiagnostic d) where
  blank := rfl
  fits := by
    refine .cons (fits_of d.span (fun _ => rfl) (fun _ => ?_) fun _ => (drafts_span hd).reads)
      (.cons (fits_of d.message (fun _ => rfl) (fun _ => ?_) fun _ => Reader.reads_string)
      (.cons (fits_of d.severity (fun _ => rfl) (fun _ => ?_) fun _ => reads_severity) .nil))
    all_goals simp [draftDiagnostic, readIn_cons_of_ne]
  nodup := by simp [namesOf, diagnosticEntries, Entry.needed]
  finish done h := by
    simp only [diagnosticEntries, Entry.needed, List.forall_mem_cons, or_false] at h
    obtain ⟨span, message, severity, -⟩ := h
    simp [diagnosticFormat, draftDiagnostic, readIn_of_mem span, readIn_of_mem message,
      readIn_of_mem severity]

/-! ### Writing and reading back -/

/-- **Round trip**: the value is read back from the text that is written for it, and read from
every other text that stands for it, with any blanks around it. -/
def RoundTrips {α : Type} [Form α] [HasTexts α] (a : α) : Prop :=
  read (render a) = .ok a ∧
    ∀ before s after, Blanks before → StandsFor s a → Blanks after →
      read (String.ofList (before ++ (s ++ after))) = .ok a

theorem roundTrips_of_reads {α : Type} [Form α] [HasTexts α] {a : α}
    (written : StandsFor (Form.write a) a)
    (reads : ∀ s, StandsFor s a → (Form.reader : Reader α).Reads s a) : RoundTrips a := by
  refine ⟨?_, fun before s after hb h ha => (reads s h).whole hb ha⟩
  have back := (reads _ written).whole blanks_nil blanks_nil
  rw [List.nil_append, List.append_nil] at back
  exact back

/-- **All seven types round-trip**: options, notes for translators, files, locations, spans,
severities and diagnostics. -/
theorem round_trips (o : Options) (i : I18n) (f : Source.File) (l : Source.Location)
    (p : Source.Span) (v : Severity) (d : Diagnostic) (hl : l.offset < UInt64.size)
    (hp : p.start.offset < UInt64.size ∧ p.stop.offset < UInt64.size)
    (hd : d.span.start.offset < UInt64.size ∧ d.span.stop.offset < UInt64.size) :
    RoundTrips o ∧ RoundTrips i ∧ RoundTrips f ∧ RoundTrips l ∧ RoundTrips p ∧ RoundTrips v ∧
      RoundTrips d := by
  refine ⟨?_, ?_, ?_, ?_, ?_, ?_, ?_⟩
  · exact roundTrips_of_reads (standsFor_write_options o) fun _ => (drafts_options o).reads
  · exact roundTrips_of_reads (standsFor_write_i18n i) fun _ => (drafts_i18n i).reads
  · exact roundTrips_of_reads (standsFor_write_file f) fun _ => (drafts_file f).reads
  · exact roundTrips_of_reads (standsFor_write_location l) fun _ => (drafts_location hl).reads
  · exact roundTrips_of_reads (standsFor_write_span p) fun _ => (drafts_span hp).reads
  · exact roundTrips_of_reads (standsFor_write_severity v) fun _ => reads_severity
  · exact roundTrips_of_reads (standsFor_write_diagnostic d) fun _ => (drafts_diagnostic hd).reads

/-- Characters that have to be escaped, and the largest counters that there are; a file that is read
from a text with its members in another order and one member more, behind a blank; and a span that
is read from a text without details, which begins with its end. -/
theorem round_trips_largest :
    RoundTrips (⟨⟨"\"\\\x00", "/"⟩, 18446744073709551615, 18446744073709551615,
      18446744073709551615⟩ : Source.Location) ∧
    read " \x7b\"url\":\"/\",\"x\":[null],\"content\":\"a\"\x7d" = .ok (⟨"a", "/"⟩ : Source.File) ∧
    read (String.ofList (writeObject
        [("end", Form.write (⟨⟨"", ""⟩, 1, 0, 1⟩ : Source.Location)),
          ("start", Form.write (⟨⟨"", ""⟩, 0, 0, 0⟩ : Source.Location))])) =
      .ok (⟨⟨⟨"", ""⟩, 0, 0, 0⟩, ⟨⟨"", ""⟩, 1, 0, 1⟩, none⟩ : Source.Span) := by
  let start : Source.Location := ⟨⟨"", ""⟩, 0, 0, 0⟩
  let stop : Source.Location := ⟨⟨"", ""⟩, 1, 0, 1⟩
  obtain ⟨-, -, file, location, span, -, -⟩ := round_trips {} ⟨"", "", ""⟩ ⟨"a", "/"⟩
    ⟨⟨"\"\\\x00", "/"⟩, 18446744073709551615, 18446744073709551615, 18446744073709551615⟩
    ⟨start, stop, none⟩ .error ⟨⟨start, stop, some ""⟩, "", .warning⟩
    (by decide) (by decide) (by decide)
  have blank : Blanks [' '] := by simp [Blanks]
  have null : IsValue "null".toList := .word (by decide)
  have list : IsValue "[null]".toList :=
    .filled (b := .square) (.one (.element blanks_nil) null blanks_nil)
  have permuted : [("url", quote "/"), ("x", "[null]".toList), ("content", quote "a")].Perm
      ([("content", quote "a"), ("url", quote "/")] ++ [("x", "[null]".toList)]) :=
    @List.perm_append_comm _ [("url", quote "/"), ("x", "[null]".toList)] [("content", quote "a")]
  have fileText : StandsFor
      (writeObject [("url", quote "/"), ("x", "[null]".toList), ("content", quote "a")])
      (⟨"a", "/"⟩ : Source.File) :=
    isRecord_writeObject_of_perm permuted
      (.present (quotes_quote "a") (.present (quotes_quote "/") .nil))
      (by simpa [namesOf, fileEntries, Entry.needed] using list)
  have spanText : StandsFor (writeObject [("end", Form.write stop), ("start", Form.write start)])
      (⟨start, stop, none⟩ : Source.Span) :=
    isRecord_writeObject_of_perm
      (List.Perm.swap ("start", Form.write start) ("end", Form.write stop) [])
      (.present (standsFor_write_location start)
        (.present (standsFor_write_location stop) (.missing rfl .nil)))
      (by simp)
  have text : String.ofList ([' '] ++
      (writeObject [("url", quote "/"), ("x", "[null]".toList), ("content", quote "a")] ++ [])) =
        " \x7b\"url\":\"/\",\"x\":[null],\"content\":\"a\"\x7d" := rfl
  have extended := file.2 [' '] _ [] blank fileText blanks_nil
  rw [text] at extended
  have shortened := span.2 [] _ [] blanks_nil spanText blanks_nil
  rw [List.nil_append, List.append_nil] at shortened
  exact ⟨location, extended, shortened⟩

end Json

end TemplateMarkup
