import TemplateMarkup.Error

/-!
# Written tag names

Which texts are tag names, said by the two ways to write one, and how far reading and writing are
inverse. A name with a namespace is written with a colon on either side of it, so the namespace
holds no colon; a name without one does not start with a colon, whatever else it holds. What is
left are the texts with a colon at the start and none behind it, and these are malformed.

Writing leaves out a namespace that is empty, while reading accepts one, and writing puts any
namespace between colons, while reading ends it at the first. Nothing else keeps the two from
being inverse.

## The model

`Written s n` says that `s` is a way to write the name `n`. It does not look for a colon.

## What is proved

* `parse_of_written` and `parse_of_malformed` — what is read, and `written_or_malformed` — these
  are all texts, so `parse_eq_ok_iff` — reading finds exactly what is written.
* `written_unqualified_iff` and `written_qualified_iff` — how a name can be written.
* `render_parse_inverse` — which texts come back when they are read and written again, and which
  names when they are written and read again.
-/

namespace TemplateMarkup

namespace TagName

/-- **Written**: the text `s` is a way to write the name `n`. -/
inductive Written : String → TagName → Prop where
  /-- Without a namespace, if this does not look like the start of one. -/
  | unqualified {base : String} : (¬ ∃ rest, base = ":" ++ rest) → Written base ⟨none, base⟩
  /-- With a namespace between colons. -/
  | qualified {ns base : String} : separator ∉ ns.toList →
      Written (":" ++ ns ++ ":" ++ base) ⟨some ns, base⟩

/-! ### Reading -/

theorem toList_colon_append (s : String) : (":" ++ s).toList = separator :: s.toList :=
  String.toList_append

theorem toList_qualified (ns base : String) :
    (":" ++ ns ++ ":" ++ base).toList = separator :: (ns.toList ++ separator :: base.toList) := by
  rw [String.append_assoc, String.append_assoc, toList_colon_append, String.toList_append,
    toList_colon_append]

theorem forall_ne_separator {cs : List Char} (h : separator ∉ cs) :
    ∀ c ∈ cs, decide (c ≠ separator) = true := by
  intro c hc
  have hne : c ≠ separator := fun e => h (e ▸ hc)
  exact decide_eq_true hne

/-- A text that does not start with a colon is a name without a namespace. -/
theorem split?_unqualified {cs : List Char} (h : ∀ rest, cs ≠ separator :: rest) :
    split? cs = some (none, cs) := by
  cases cs with
  | nil => rfl
  | cons c cs =>
    have hc : c ≠ separator := by
      rintro rfl
      exact h cs rfl
    rw [split?, if_neg hc]

/-- The namespace ends at the first colon behind the one in front of it. -/
theorem split?_qualified {ns : List Char} (hns : separator ∉ ns) (base : List Char) :
    split? (separator :: (ns ++ separator :: base)) = some (some ns, base) := by
  have hall := forall_ne_separator hns
  have hdrop : (separator :: base).dropWhile (· ≠ separator) = separator :: base := rfl
  have htake : (separator :: base).takeWhile (· ≠ separator) = [] := rfl
  rw [split?, if_pos rfl, List.dropWhile_append_of_pos hall, List.takeWhile_append_of_pos hall,
    hdrop, htake, List.append_nil]

/-- Without a second colon there is no end of the namespace. -/
theorem split?_malformed {rest : List Char} (hrest : separator ∉ rest) :
    split? (separator :: rest) = none := by
  rw [split?, if_pos rfl, ← List.append_nil rest,
    List.dropWhile_append_of_pos (forall_ne_separator hrest), List.dropWhile_nil]

theorem parse_of_split? {s : String} {ns : Option (List Char)} {base : List Char}
    (h : split? s.toList = some (ns, base)) :
    parse s = .ok ⟨ns.map String.ofList, String.ofList base⟩ := by
  simp only [parse, parse?, h, Option.map_some]

/-- What is written is read. -/
theorem parse_of_written {s : String} {n : TagName} (h : Written s n) : parse s = .ok n := by
  cases h with
  | unqualified hbase =>
    have hstart : ∀ rest, s.toList ≠ separator :: rest := by
      intro rest hrest
      refine hbase ⟨String.ofList rest, String.toList_inj.1 ?_⟩
      rw [hrest, toList_colon_append, String.toList_ofList]
    rw [parse_of_split? (split?_unqualified hstart), Option.map_none, String.ofList_toList]
  | @qualified ns base hns =>
    have hsplit := split?_qualified hns base.toList
    rw [← toList_qualified] at hsplit
    rw [parse_of_split? hsplit, Option.map_some, String.ofList_toList, String.ofList_toList]

/-- A colon at the start and none behind it is malformed. -/
theorem parse_of_malformed {rest : String} (hrest : separator ∉ rest.toList) :
    parse (":" ++ rest) = .error (.unsupportedNamespace (":" ++ rest)) := by
  rw [parse, parse?, toList_colon_append, split?_malformed hrest, Option.map_none]

/-- Every text is a written name or malformed. -/
theorem written_or_malformed (s : String) :
    (∃ n, Written s n) ∨ ∃ rest, s = ":" ++ rest ∧ separator ∉ rest.toList := by
  by_cases hs : ∃ rest, s = ":" ++ rest
  · obtain ⟨rest, rfl⟩ := hs
    by_cases hrest : separator ∈ rest.toList
    · obtain ⟨ns, base, hsplit, hns⟩ := List.eq_append_cons_of_mem hrest
      rw [← String.toList_ofList (l := ns)] at hns
      have hs : ":" ++ rest = ":" ++ String.ofList ns ++ ":" ++ String.ofList base := by
        rw [← String.toList_inj, toList_qualified, toList_colon_append, hsplit,
          String.toList_ofList, String.toList_ofList]
      rw [hs]
      exact .inl ⟨_, .qualified hns⟩
    · exact .inr ⟨rest, rfl, hrest⟩
  · exact .inl ⟨_, .unqualified hs⟩

/-- **Reading finds exactly what is written.** -/
theorem parse_eq_ok_iff {s : String} {n : TagName} : parse s = .ok n ↔ Written s n := by
  constructor
  · intro h
    obtain ⟨m, hm⟩ | ⟨rest, rfl, hrest⟩ := written_or_malformed s
    · rw [parse_of_written hm, Except.ok.injEq] at h
      exact h ▸ hm
    · rw [parse_of_malformed hrest] at h
      cases h
  · exact parse_of_written

/-! ### Writing -/

theorem written_unqualified_iff {s base : String} :
    Written s ⟨none, base⟩ ↔ s = base ∧ ¬ ∃ rest, base = ":" ++ rest := by
  constructor
  · rintro ⟨hbase⟩
    exact ⟨rfl, hbase⟩
  · rintro ⟨rfl, hbase⟩
    exact .unqualified hbase

theorem written_qualified_iff {s ns base : String} :
    Written s ⟨some ns, base⟩ ↔ s = ":" ++ ns ++ ":" ++ base ∧ separator ∉ ns.toList := by
  constructor
  · intro h
    cases h with
    | qualified hns => exact ⟨rfl, hns⟩
  · rintro ⟨rfl, hns⟩
    exact .qualified hns

/-- A namespace that is not empty stands in what is written. -/
theorem render_some_of_ne {ns : String} (hns : ns ≠ "") (base : String) :
    render ⟨some ns, base⟩ = ":" ++ ns ++ ":" ++ base :=
  if_neg hns

/-- An empty namespace does not, and what is written is shorter. -/
theorem qualified_empty_ne (base : String) : ":" ++ "" ++ ":" ++ base ≠ base := by
  intro h
  have hlength := congrArg List.length (congrArg String.toList h)
  rw [toList_qualified, List.length_cons, List.length_append, List.length_cons] at hlength
  omega

/-- A namespace that is not empty and holds no colon stands between the two at the start. -/
theorem qualified_ne_of_ne {ns : String} (hns : ns ≠ "") (hcolon : separator ∉ ns.toList)
    (base rest : String) : ":" ++ ns ++ ":" ++ base ≠ "::" ++ rest := by
  intro h
  have hlist := congrArg String.toList h
  have htwo : ("::" ++ rest).toList = separator :: separator :: rest.toList := String.toList_append
  rw [toList_qualified, htwo, List.cons.injEq] at hlist
  cases hchars : ns.toList with
  | nil => exact hns (String.toList_inj.1 (hchars.trans String.toList_empty.symm))
  | cons c cs =>
    rw [hchars, List.cons_append, List.cons.injEq] at hlist
    rw [hchars, hlist.2.1] at hcolon
    exact hcolon List.mem_cons_self

/-- A written name comes back unless its namespace is empty. -/
theorem render_eq_iff_of_written {s : String} {n : TagName} (h : Written s n) :
    n.render = s ↔ ¬ ∃ rest, s = "::" ++ rest := by
  cases h with
  | unqualified hbase =>
    refine iff_of_true rfl ?_
    rintro ⟨rest, hs⟩
    exact hbase ⟨":" ++ rest, hs⟩
  | @qualified ns base hns =>
    by_cases hempty : ns = ""
    · subst hempty
      refine iff_of_false (Ne.symm (qualified_empty_ne base)) ?_
      exact fun h => h ⟨base, rfl⟩
    · refine iff_of_true (render_some_of_ne hempty base) ?_
      rintro ⟨rest, hs⟩
      exact qualified_ne_of_ne hempty hns base rest hs

/-- A name comes back if what stands for it is a way to write it. -/
theorem parse_render_iff (ns : Option String) (base : String) :
    parse (render ⟨ns, base⟩) = .ok ⟨ns, base⟩ ↔
      (∃ p, ns = some p ∧ p ≠ "" ∧ separator ∉ p.toList) ∨
      (ns = none ∧ ¬ ∃ rest, base = ":" ++ rest) := by
  rw [parse_eq_ok_iff]
  cases ns with
  | none =>
    rw [written_unqualified_iff]
    constructor
    · rintro ⟨-, hbase⟩
      exact .inr ⟨rfl, hbase⟩
    · rintro (⟨p, hp, -⟩ | ⟨-, hbase⟩)
      · cases hp
      · exact ⟨rfl, hbase⟩
  | some p =>
    rw [written_qualified_iff]
    constructor
    · rintro ⟨hrender, hp⟩
      refine .inl ⟨p, rfl, ?_, hp⟩
      rintro rfl
      exact qualified_empty_ne base hrender.symm
    · rintro (⟨q, hq, hne, hcolon⟩ | ⟨hnone, -⟩)
      · cases hq
        exact ⟨render_some_of_ne hne base, hcolon⟩
      · cases hnone

/-- **Reading and writing are inverse exactly where they can be**: a text that can be read comes
back from the name unless it starts with two colons, and a name comes back from the text if its
namespace is not empty and holds no colon, or if it has none and does not start with a colon. -/
theorem render_parse_inverse :
    (∀ s n, parse s = .ok n → (n.render = s ↔ ¬ ∃ rest, s = "::" ++ rest)) ∧
    ∀ (ns : Option String) (base : String), parse (render ⟨ns, base⟩) = .ok ⟨ns, base⟩ ↔
      (∃ p, ns = some p ∧ p ≠ "" ∧ separator ∉ p.toList) ∨
      (ns = none ∧ ¬ ∃ rest, base = ":" ++ rest) :=
  ⟨fun _ _ h => render_eq_iff_of_written (parse_eq_ok_iff.1 h), parse_render_iff⟩

/-- A name with colons in its base comes back, and one with an empty namespace does not. -/
theorem render_parse_inverse_colons :
    parse ":svg:a:b" = .ok ⟨some "svg", "a:b"⟩ ∧ render ⟨some "svg", "a:b"⟩ = ":svg:a:b" ∧
      parse "::a" = .ok ⟨some "", "a"⟩ ∧ render ⟨some "", "a"⟩ ≠ "::a" := by
  have hqualified : parse ":svg:a:b" = .ok ⟨some "svg", "a:b"⟩ := by rfl
  have hempty : parse "::a" = .ok ⟨some "", "a"⟩ := by rfl
  have hsvg : ¬ ∃ rest, ":svg:a:b" = "::" ++ rest := by
    rintro ⟨rest, h⟩
    have hlist := congrArg String.toList h
    rw [String.toList_append] at hlist
    exact absurd (List.cons.inj (List.cons.inj hlist).2).1 (by decide)
  have ha : ∃ rest, "::a" = "::" ++ rest := ⟨"a", rfl⟩
  refine ⟨hqualified, (render_parse_inverse.1 _ _ hqualified).2 hsvg, hempty, ?_⟩
  exact fun h => (render_parse_inverse.1 _ _ hempty).1 h ha

end TagName

end TemplateMarkup
