import TemplateMarkup.Proofs.Hints
import TemplateMarkup.Proofs.TagName

/-!
# One grammar of tag names

A tag name is looked at in several places: it is taken apart, its namespace is asked for, it is
compared with the names that the compiler knows, and the role of an element is read off it. The
first two can fail and the others cannot, and the last one does not regard case; still all of them
agree on what a name is. A malformed name is an error for the first two and no name at all for the
others, and a namespace is passed over everywhere, whatever it is and in whichever case it stands.

## The model

`Malformed s` and `IsNamed s base` say which texts are malformed and which are the name `base` in
some namespace or in none. Neither looks for a colon, and neither folds case.

## What is proved

* `parse_eq_error_iff` and `hasBase_iff_isNamed` — which texts are refused, and which have a name.
* `written_foldCase_iff` — taking a name apart and folding its case can change places.
* `roleOf_eq_content_iff` and `roleOf_eq_style_iff_and_script_iff` — the roles by name.
* `names_read_by_one_grammar` — what all readers of a tag name find in it.
-/

namespace TemplateMarkup

namespace TagName

variable {s base : String}

/-- **Malformed**: a colon at the start, and none behind it. -/
def Malformed (s : String) : Prop := ∃ rest, s = ":" ++ rest ∧ separator ∉ rest.toList

/-- **The text is the name `base`**, in some namespace or in none. -/
def IsNamed (s base : String) : Prop :=
  s = base ∨ ∃ ns, separator ∉ ns.toList ∧ s = ":" ++ ns ++ ":" ++ base

/-! ### Reading -/

/-- **Malformed names are refused**, and nothing else is. -/
theorem parse_eq_error_iff {e : Error} :
    parse s = .error e ↔ Malformed s ∧ e = .unsupportedNamespace s := by
  constructor
  · intro h
    obtain ⟨n, hn⟩ | ⟨rest, rfl, hrest⟩ := written_or_malformed s
    · rw [parse_of_written hn] at h
      cases h
    · rw [parse_of_malformed hrest] at h
      exact ⟨⟨rest, rfl, hrest⟩, (Except.error.inj h).symm⟩
  · rintro ⟨⟨rest, rfl, hrest⟩, rfl⟩
    exact parse_of_malformed hrest

theorem parse?_eq_some_iff {n : TagName} : parse? s = some n ↔ Written s n := by
  rw [← parse_eq_ok_iff, parse]
  cases parse? s with
  | none => simp
  | some m => simp

/-- A malformed text is no way to write a name. -/
theorem not_written_of_malformed {n : TagName} (h : Malformed s) : ¬ Written s n := by
  intro hn
  have herror := parse_eq_error_iff.2 ⟨h, rfl⟩
  rw [parse_of_written hn] at herror
  cases herror

theorem hasBase_iff_written : hasBase s base = true ↔ ∃ ns, Written s ⟨ns, base⟩ := by
  simp only [hasBase_iff, parse?_eq_some_iff]

/-- A name that does not start with a colon is found in any namespace and in none. -/
theorem hasBase_iff_isNamed (hbase : ¬ ∃ rest, base = ":" ++ rest) :
    hasBase s base = true ↔ IsNamed s base := by
  rw [hasBase_iff_written]
  constructor
  · rintro ⟨ns, h⟩
    cases ns with
    | none => exact .inl (written_unqualified_iff.1 h).1
    | some ns =>
      obtain ⟨hs, hns⟩ := written_qualified_iff.1 h
      exact .inr ⟨ns, hns, hs⟩
  · rintro (rfl | ⟨ns, hns, rfl⟩)
    · exact ⟨none, .unqualified hbase⟩
    · exact ⟨some ns, .qualified hns⟩

theorem hasBase_of_malformed (h : Malformed s) (base : String) : hasBase s base = false := by
  rw [Bool.eq_false_iff, Ne, hasBase_iff_written]
  rintro ⟨ns, hn⟩
  exact not_written_of_malformed h hn

/-- The known names start with a letter, so none of them looks like a namespace. -/
theorem not_colon_of_head {c : Char} (hc : c ≠ separator) (hbase : base.toList.head? = some c) :
    ¬ ∃ rest, base = ":" ++ rest := by
  rintro ⟨rest, rfl⟩
  rw [toList_colon_append, List.head?_cons, Option.some.injEq] at hbase
  exact hc hbase.symm

/-- The namespace is that of the name, and it is an error to ask for one where there is no name. -/
theorem namespaceOf_eq_error_iff {e : Error} :
    namespaceOf (some s) = .error e ↔ parse s = .error e := by
  rw [namespaceOf]
  cases parse s with
  | error e' => simp [Except.map]
  | ok n => simp [Except.map]

theorem namespaceOf_eq_ok_iff {ns : Option String} :
    namespaceOf (some s) = .ok ns ↔ ∃ base, parse s = .ok ⟨ns, base⟩ := by
  rw [namespaceOf]
  cases parse s with
  | error e' => simp [Except.map]
  | ok n =>
    obtain ⟨ns', base⟩ := n
    simp [Except.map]

end TagName

/-! ### Names without regard to case -/

namespace TagName

open Hints (foldCase SameButCase)

variable {s base : String}

/-- The name with its letters in lower case. -/
def folded (n : TagName) : TagName := ⟨n.ns.map foldCase, foldCase n.base⟩

theorem foldCase_append (a b : String) : foldCase (a ++ b) = foldCase a ++ foldCase b := by
  simp only [foldCase, String.toList_append, List.map_append, String.ofList_append]

theorem foldCase_colon : foldCase ":" = ":" := by decide

/-- Folding makes no colon and takes none away: the capital of a colon would be a control
character. -/
theorem toLower_eq_separator_iff {c : Char} : c.toLower = separator ↔ c = separator := by
  have hseparator : separator.toLower = separator := by decide
  constructor
  · intro h
    obtain heq | ⟨hlow, -, hcode⟩ | ⟨hlow, -⟩ := Hints.toLower_eq_iff.1 (h.trans hseparator.symm)
    · exact heq
    · have hcapital : 65 ≤ c.toNat := hlow
      have hcolon : separator.toNat = 58 := rfl
      omega
    · exact absurd hlow (by decide)
  · rintro rfl
    exact hseparator

theorem mem_foldCase_iff : separator ∈ (foldCase s).toList ↔ separator ∈ s.toList := by
  simp only [foldCase, String.toList_ofList, List.mem_map, toLower_eq_separator_iff,
    exists_eq_right]

/-- A text starts with a colon if it does when it is folded. -/
theorem exists_colon_foldCase_iff :
    (∃ rest, foldCase s = ":" ++ rest) ↔ ∃ rest, s = ":" ++ rest := by
  constructor
  · rintro ⟨rest, h⟩
    have hlist := congrArg String.toList h
    rw [toList_colon_append, foldCase, String.toList_ofList] at hlist
    obtain ⟨c, cs, hs, hc, -⟩ := List.map_eq_cons_iff.1 hlist
    refine ⟨String.ofList cs, String.toList_inj.1 ?_⟩
    rw [hs, toList_colon_append, String.toList_ofList, toLower_eq_separator_iff.1 hc]
  · rintro ⟨rest, rfl⟩
    exact ⟨foldCase rest, by rw [foldCase_append, foldCase_colon]⟩

/-- A folded text is a way to write the folded name. -/
theorem Written.foldCase {n : TagName} (h : Written s n) : Written (foldCase s) n.folded := by
  cases h with
  | unqualified hbase => exact .unqualified (mt exists_colon_foldCase_iff.1 hbase)
  | qualified hns =>
    rw [foldCase_append, foldCase_append, foldCase_append, foldCase_colon]
    exact .qualified (mt mem_foldCase_iff.1 hns)

theorem Malformed.foldCase (h : Malformed s) : Malformed (foldCase s) := by
  obtain ⟨rest, rfl, hrest⟩ := h
  exact ⟨Hints.foldCase rest, by rw [foldCase_append, foldCase_colon], mt mem_foldCase_iff.1 hrest⟩

/-- **Folding and taking apart can change places.** -/
theorem written_foldCase_iff {m : TagName} :
    Written (foldCase s) m ↔ ∃ n, Written s n ∧ n.folded = m := by
  constructor
  · intro h
    obtain ⟨n, hn⟩ | hs := written_or_malformed s
    · have hsame := (parse_of_written hn.foldCase).symm.trans (parse_of_written h)
      exact ⟨n, hn, Except.ok.inj hsame⟩
    · exact absurd h (not_written_of_malformed (Malformed.foldCase hs))
  · rintro ⟨n, hn, rfl⟩
    exact hn.foldCase

/-- A name is found in a folded text if it stands in the text up to case. -/
theorem hasBase_foldCase_iff (hbase : foldCase base = base) :
    hasBase (foldCase s) base = true ↔ ∃ n, Written s n ∧ SameButCase n.base base := by
  simp only [hasBase_iff_written, written_foldCase_iff, ← Hints.foldCase_eq_foldCase_iff, hbase]
  constructor
  · rintro ⟨ns, n, hn, hfolded⟩
    exact ⟨n, hn, congrArg TagName.base hfolded⟩
  · rintro ⟨n, hn, hsame⟩
    exact ⟨n.ns.map foldCase, n, hn, congrArg (mk _) hsame⟩

theorem exists_written_iff (hbase : ¬ ∃ rest, base = ":" ++ rest) :
    (∃ n, Written s n ∧ SameButCase n.base base) ↔ SameButCase s base ∨
      ∃ ns b, separator ∉ ns.toList ∧ s = ":" ++ ns ++ ":" ++ b ∧ SameButCase b base := by
  constructor
  · rintro ⟨n, hn, hsame⟩
    cases hn with
    | unqualified => exact .inl hsame
    | qualified hns => exact .inr ⟨_, _, hns, rfl, hsame⟩
  · rintro (hsame | ⟨ns, b, hns, rfl, hsame⟩)
    · refine ⟨⟨none, s⟩, .unqualified fun hs => hbase ?_, hsame⟩
      rw [← exists_colon_foldCase_iff, ← Hints.foldCase_eq_foldCase_iff.2 hsame,
        exists_colon_foldCase_iff]
      exact hs
    · exact ⟨⟨some ns, b⟩, .qualified hns, hsame⟩

end TagName

/-! ### Roles -/

namespace Hints

open TagName (Malformed IsNamed)

variable {name : String} {rel : Option String}

theorem role_ofTag (tag : Tag) :
    (ofTag tag).role = roleOf tag.name (Found.ofAttributes tag.attributes).rel := rfl

/-- A place for projected content is known by its name alone. -/
theorem roleOf_eq_content_iff :
    roleOf name rel = .content ↔ TagName.isContent (foldCase name) = true := by
  unfold roleOf
  split_ifs with hcontent
  · exact iff_of_true rfl hcontent
  all_goals exact iff_of_false nofun hcontent

/-- Style sheets and scripts have their names without a namespace. -/
theorem roleOf_eq_style_iff_and_script_iff :
    (roleOf name rel = .style ↔ SameButCase name "style") ∧
    (roleOf name rel = .script ↔ SameButCase name "script") := by
  have hstyle : foldCase "style" = "style" := by decide
  have hscript : foldCase "script" = "script" := by decide
  have hcontent : ∀ t ∈ ["style", "script"], TagName.isContent t = false := by decide
  rw [← foldCase_eq_foldCase_iff, ← foldCase_eq_foldCase_iff, hstyle, hscript, roleOf]
  generalize foldCase name = folded
  by_cases hplain : folded ∈ ["style", "script"]
  · obtain rfl | rfl : folded = "style" ∨ folded = "script" := by simpa using hplain
    all_goals simp [hcontent]
  · obtain ⟨hne, hne'⟩ : folded ≠ "style" ∧ folded ≠ "script" := by simpa using hplain
    rw [if_neg hne, if_neg hne']
    split_ifs
    all_goals simp [hne, hne']

/-- **All readers of a tag name go by one grammar.** A name is an error if it is malformed, it has
a namespace if that stands between two colons, and it has none if it does not start with a colon.
The namespace that is asked for is the one of the name, with the same errors. The known names are
found in any namespace and in none, and in no malformed name. A place for projected content is
known by its name without regard to case, in any namespace; style sheets and scripts, be they
written into the template or linked to, are known by theirs outside of all namespaces. -/
theorem names_read_by_one_grammar (s : String) (tag : Tag) :
    (∀ e, TagName.parse s = .error e ↔ Malformed s ∧ e = .unsupportedNamespace s) ∧
    (∀ ns base, TagName.parse s = .ok ⟨some ns, base⟩ ↔
      s = ":" ++ ns ++ ":" ++ base ∧ TagName.separator ∉ ns.toList) ∧
    (∀ base, TagName.parse s = .ok ⟨none, base⟩ ↔ s = base ∧ ¬ ∃ rest, base = ":" ++ rest) ∧
    (∀ e, TagName.namespaceOf (some s) = .error e ↔ TagName.parse s = .error e) ∧
    (∀ ns, TagName.namespaceOf (some s) = .ok ns ↔ ∃ base, TagName.parse s = .ok ⟨ns, base⟩) ∧
    (TagName.isContainer s = true ↔ IsNamed s "ng-container") ∧
    (TagName.isContent s = true ↔ IsNamed s "ng-content") ∧
    (TagName.isTemplate s = true ↔ IsNamed s "ng-template") ∧
    (Malformed s → TagName.isContainer s = false ∧ TagName.isContent s = false ∧
      TagName.isTemplate s = false) ∧
    ((ofTag tag).role = .content ↔ TagName.isContent (foldCase tag.name) = true) ∧
    ((ofTag tag).role = .content ↔ SameButCase tag.name "ng-content" ∨
      ∃ ns base, TagName.separator ∉ ns.toList ∧ tag.name = ":" ++ ns ++ ":" ++ base ∧
        SameButCase base "ng-content") ∧
    ((ofTag tag).role = .style ↔ SameButCase tag.name "style") ∧
    ((ofTag tag).role = .script ↔ SameButCase tag.name "script") ∧
    ((ofTag tag).role = .stylesheet → SameButCase tag.name "link") := by
  have hcontainer : ¬ ∃ rest, "ng-container" = ":" ++ rest :=
    TagName.not_colon_of_head (c := 'n') (by decide) (by decide)
  have hcontent : ¬ ∃ rest, "ng-content" = ":" ++ rest :=
    TagName.not_colon_of_head (c := 'n') (by decide) (by decide)
  have htemplate : ¬ ∃ rest, "ng-template" = ":" ++ rest :=
    TagName.not_colon_of_head (c := 'n') (by decide) (by decide)
  have hfolded : foldCase "ng-content" = "ng-content" := by decide
  rw [role_ofTag]
  generalize (Found.ofAttributes tag.attributes).rel = rel
  obtain ⟨hstyle, hscript⟩ : (roleOf tag.name rel = .style ↔ SameButCase tag.name "style") ∧
      (roleOf tag.name rel = .script ↔ SameButCase tag.name "script") :=
    roleOf_eq_style_iff_and_script_iff
  refine ⟨fun _ => TagName.parse_eq_error_iff, fun ns base => ?_, fun base => ?_,
    fun _ => TagName.namespaceOf_eq_error_iff, fun _ => TagName.namespaceOf_eq_ok_iff,
    TagName.hasBase_iff_isNamed hcontainer, TagName.hasBase_iff_isNamed hcontent,
    TagName.hasBase_iff_isNamed htemplate, fun h => ?_, roleOf_eq_content_iff, ?_, hstyle, hscript,
    fun h => (roleOf_eq_stylesheet_iff.1 h).1⟩
  · rw [TagName.parse_eq_ok_iff, TagName.written_qualified_iff]
  · rw [TagName.parse_eq_ok_iff, TagName.written_unqualified_iff]
  · exact ⟨TagName.hasBase_of_malformed h _, TagName.hasBase_of_malformed h _,
      TagName.hasBase_of_malformed h _⟩
  · rw [← TagName.exists_written_iff hcontent, ← TagName.hasBase_foldCase_iff hfolded]
    exact roleOf_eq_content_iff

/-- A malformed name is none of the known ones although it ends like one, and capitals in a name
and in its namespace do not matter. -/
theorem names_read_by_one_grammar_malformed :
    let span : Source.Span := ⟨.start default, .start default, none⟩
    let tag : Tag := ⟨":SVG:Ng-Content", [], span, span, none, none⟩
    Malformed ":ng-content" ∧ TagName.isContainer ":ng-content" = false ∧
      TagName.isContent ":ng-content" = false ∧ TagName.isTemplate ":ng-content" = false ∧
      (ofTag tag).role = .content := by
  intro span tag
  have hmalformed : Malformed ":ng-content" := ⟨"ng-content", rfl, by decide⟩
  have hname : tag.name = ":" ++ "SVG" ++ ":" ++ "Ng-Content" := rfl
  obtain ⟨-, -, -, -, -, -, -, -, hnone, -, hcontent, -⟩ :=
    names_read_by_one_grammar ":ng-content" tag
  obtain ⟨hcontainer, hplace, htemplate⟩ := hnone hmalformed
  refine ⟨hmalformed, hcontainer, hplace, htemplate, hcontent.2 (.inr ?_)⟩
  exact ⟨"SVG", "Ng-Content", by decide, hname, by decide⟩

end Hints

end TemplateMarkup
