import TemplateMarkup.Proofs.Trim.Hints
import Mathlib.Data.List.Forall2

/-!
# What hints are read from

The hints of an element come from its name and from the attributes of five kinds. Of each kind the
last one counts, however many there are and whatever stands between them, and attributes of one
kind have no say in what is read from another. So of all an element has, these five sequences and
its name determine its hints, and its children do not.

## The model

Names that the page knows too are compared up to the case of ASCII letters. `SameButCase` says so
letter by letter, without folding anything. `Key` are the kinds of attributes whose values are
looked at, and `Key.values` are these values in order; the fifth kind has no value that counts.

## What is proved

* `sameName_iff` — names are compared as they should be.
* `Key.eq_of_marks` — an attribute is of one kind at most, so `Found.value_add` — one more attribute
  sets what is found of its kind and leaves the rest.
* `Found.value_ofAttributes` and `Found.nonBindable_ofAttributes` — what is found among attributes.
* `hints_read` — the hints of an element, and what they depend on.
-/

namespace TemplateMarkup

namespace Hints

/-! ### Names up to case -/

/-- `IsSmallOf c d`: the character `d` is the small letter of the ASCII capital `c`. -/
def IsSmallOf (c d : Char) : Prop := 'A' ≤ c ∧ c ≤ 'Z' ∧ d.toNat = c.toNat + 32

/-- The characters are the same, or one ASCII letter in its two cases. -/
def SameLetter (c d : Char) : Prop := c = d ∨ IsSmallOf c d ∨ IsSmallOf d c

/-- **The texts differ at most in the case of ASCII letters.** -/
def SameButCase (a b : String) : Prop := List.Forall₂ SameLetter a.toList b.toList

/-- The ASCII capitals by their code points. -/
theorem isCapital_iff {c : Char} : 'A' ≤ c ∧ c ≤ 'Z' ↔ 65 ≤ c.toNat ∧ c.toNat ≤ 90 := Iff.rfl

theorem toNat_toLower (c : Char) :
    c.toLower.toNat = if 65 ≤ c.toNat ∧ c.toNat ≤ 90 then c.toNat + 32 else c.toNat := by
  unfold Char.toLower
  by_cases h : c.val ≥ 'A'.val ∧ c.val ≤ 'Z'.val
  · have hcapital : 65 ≤ c.toNat ∧ c.toNat ≤ 90 := isCapital_iff.1 h
    rw [dif_pos h, if_pos hcapital]
    show (c.toNat + 32) % UInt32.size = c.toNat + 32
    exact Nat.mod_eq_of_lt (by unfold UInt32.size; omega)
  · rw [dif_neg h, if_neg (mt isCapital_iff.2 h)]

/-- Characters fold to the same one exactly if they differ in case at most. -/
theorem toLower_eq_iff {c d : Char} : c.toLower = d.toLower ↔ SameLetter c d := by
  unfold SameLetter IsSmallOf
  rw [← and_assoc, ← and_assoc, isCapital_iff, isCapital_iff, ← Char.toNat_inj, ← Char.toNat_inj,
    toNat_toLower, toNat_toLower]
  split <;> split <;> omega

/-- **Names are compared up to case.** -/
theorem sameName_iff {a b : String} : sameName a b = true ↔ SameButCase a b := by
  rw [sameName, decide_eq_true_eq, foldCase, foldCase, String.ofList_inj, SameButCase,
    ← List.forall₂_eq_eq_eq, List.forall₂_map_left_iff, List.forall₂_map_right_iff]
  simp only [toLower_eq_iff]

theorem foldCase_eq_foldCase_iff {a b : String} : foldCase a = foldCase b ↔ SameButCase a b := by
  rw [← sameName_iff, sameName, decide_eq_true_eq]

instance (a b : String) : Decidable (SameButCase a b) := decidable_of_iff _ sameName_iff

/-! ### Attributes by kind -/

/-- The kinds of attributes whose values are looked at. -/
inductive Key where
  /-- Which content the element is a place for. -/
  | select
  /-- What the element links to. -/
  | href
  /-- What the link is for. -/
  | rel
  /-- What the element is projected as. -/
  | projectAs
  deriving DecidableEq

namespace Key

/-- The attribute is of this kind. One that projects the element as nothing is of no kind. -/
def Marks : Key → Attribute → Prop
  | select, a => SameButCase a.name "select"
  | href, a => SameButCase a.name "href"
  | rel, a => SameButCase a.name "rel"
  | projectAs, a => a.name = "ngProjectAs" ∧ a.value ≠ ""

instance : (k : Key) → (a : Attribute) → Decidable (k.Marks a)
  | select, a => inferInstanceAs (Decidable (SameButCase a.name "select"))
  | href, a => inferInstanceAs (Decidable (SameButCase a.name "href"))
  | rel, a => inferInstanceAs (Decidable (SameButCase a.name "rel"))
  | projectAs, a => inferInstanceAs (Decidable (a.name = "ngProjectAs" ∧ a.value ≠ ""))

/-- The values of the attributes of this kind, in order. -/
def values (k : Key) (attributes : List Attribute) : List String :=
  (attributes.filter fun a => k.Marks a).map (·.value)

/-- The name of the attributes of this kind without regard to case. -/
def folded : Key → String
  | select => "select"
  | href => "href"
  | rel => "rel"
  | projectAs => "ngprojectas"

variable {j k : Key} {a : Attribute}

theorem foldCase_folded (k : Key) : foldCase k.folded = k.folded := by
  cases k <;> decide

theorem foldCase_of_marks (h : k.Marks a) : foldCase a.name = k.folded := by
  rw [← foldCase_folded]
  cases k with
  | select => exact foldCase_eq_foldCase_iff.2 h
  | href => exact foldCase_eq_foldCase_iff.2 h
  | rel => exact foldCase_eq_foldCase_iff.2 h
  | projectAs =>
    rw [h.1]
    decide

/-- **An attribute is of one kind at most.** -/
theorem eq_of_marks (hj : j.Marks a) (hk : k.Marks a) : j = k := by
  have hfolded := (foldCase_of_marks hj).symm.trans (foldCase_of_marks hk)
  revert hfolded
  cases j <;> cases k <;> decide

/-- The attribute without a value that counts is of none of these kinds. -/
theorem name_ne_of_marks (h : k.Marks a) : a.name ≠ "ngNonBindable" := by
  intro hname
  have hfolded := foldCase_of_marks h
  rw [hname] at hfolded
  revert hfolded
  cases k <;> decide

end Key

/-! ### What is found among attributes -/

namespace Found

/-- What has been found of a kind. -/
def value (f : Found) : Key → Option String
  | .select => f.select
  | .href => f.href
  | .rel => f.rel
  | .projectAs => f.projectAs

/-- The same, with something else found of one kind. -/
def set (f : Found) (v : String) : Key → Found
  | .select => { f with select := some v }
  | .href => { f with href := some v }
  | .rel => { f with rel := some v }
  | .projectAs => { f with projectAs := some v }

theorem value_set (f : Found) (v : String) (j k : Key) :
    (f.set v j).value k = if k = j then some v else f.value k := by
  cases j <;> cases k <;> rfl

theorem nonBindable_set (f : Found) (v : String) (k : Key) :
    (f.set v k).nonBindable = f.nonBindable := by
  cases k <;> rfl

/-- One more attribute, by its kind. -/
theorem add_eq (f : Found) (a : Attribute) :
    f.add a =
      if a.name = "ngNonBindable" then { f with nonBindable := true }
      else if Key.projectAs.Marks a then f.set a.value .projectAs
      else if Key.select.Marks a then f.set a.value .select
      else if Key.href.Marks a then f.set a.value .href
      else if Key.rel.Marks a then f.set a.value .rel
      else f := by
  simp only [add, sameName_iff]
  rfl

variable {a : Attribute}

/-- An attribute of a kind sets what is found of this kind. -/
theorem add_of_marks (f : Found) {k : Key} (h : k.Marks a) : f.add a = f.set a.value k := by
  have hname := Key.name_ne_of_marks h
  have hother : ∀ j, j ≠ k → ¬ j.Marks a := fun j hj hmark => hj (Key.eq_of_marks hmark h)
  rw [add_eq, if_neg hname]
  cases k with
  | projectAs => rw [if_pos h]
  | select => rw [if_neg (hother .projectAs nofun), if_pos h]
  | href => rw [if_neg (hother .projectAs nofun), if_neg (hother .select nofun), if_pos h]
  | rel =>
    rw [if_neg (hother .projectAs nofun), if_neg (hother .select nofun),
      if_neg (hother .href nofun), if_pos h]

/-- Any other attribute leaves what is found, or leaves the content unbound. -/
theorem add_of_not_marks (f : Found) (h : ∀ k : Key, ¬ k.Marks a) :
    f.add a = { f with nonBindable := f.nonBindable || a.name = "ngNonBindable" } := by
  rw [add_eq, if_neg (h .projectAs), if_neg (h .select), if_neg (h .href), if_neg (h .rel)]
  by_cases hname : a.name = "ngNonBindable"
  · simp [hname]
  · simp [hname]

/-- **One more attribute sets what is found of its kind**, and leaves the rest. -/
theorem value_add (f : Found) (a : Attribute) (k : Key) :
    (f.add a).value k = if k.Marks a then some a.value else f.value k := by
  by_cases hmarks : ∃ j : Key, j.Marks a
  · obtain ⟨j, hj⟩ := hmarks
    have hkind : k.Marks a ↔ k = j := ⟨fun hk => Key.eq_of_marks hk hj, fun hk => hk ▸ hj⟩
    rw [add_of_marks f hj, value_set]
    simp only [hkind]
  · have hnone := not_exists.1 hmarks
    rw [add_of_not_marks f hnone, if_neg (hnone k)]
    cases k <;> rfl

theorem nonBindable_add (f : Found) (a : Attribute) :
    (f.add a).nonBindable = (f.nonBindable || a.name = "ngNonBindable") := by
  by_cases hmarks : ∃ j : Key, j.Marks a
  · obtain ⟨j, hj⟩ := hmarks
    rw [add_of_marks f hj, nonBindable_set, decide_eq_false (Key.name_ne_of_marks hj),
      Bool.or_false]
  · rw [add_of_not_marks f (not_exists.1 hmarks)]

/-- **Of every kind the last value is found.** -/
theorem value_ofAttributes (attributes : List Attribute) (k : Key) :
    (ofAttributes attributes).value k = (k.values attributes).getLast? := by
  induction attributes using List.reverseRecOn with
  | nil => cases k <;> rfl
  | append_singleton attributes a ih =>
    have hfound : ofAttributes (attributes ++ [a]) = (ofAttributes attributes).add a :=
      List.foldl_concat ..
    rw [hfound, value_add, ih, Key.values, Key.values, List.filter_append, List.map_append]
    by_cases hk : k.Marks a
    · simp [hk]
    · simp [hk]

theorem nonBindable_ofAttributes (attributes : List Attribute) :
    (ofAttributes attributes).nonBindable = true ↔ ∃ a ∈ attributes, a.name = "ngNonBindable" := by
  induction attributes using List.reverseRecOn with
  | nil => exact iff_of_false Bool.false_ne_true (by rintro ⟨a, ha, -⟩; cases ha)
  | append_singleton attributes a ih =>
    have hfound : ofAttributes (attributes ++ [a]) = (ofAttributes attributes).add a :=
      List.foldl_concat ..
    rw [hfound, nonBindable_add, Bool.or_eq_true, decide_eq_true_eq, ih]
    constructor
    · rintro (⟨b, hb, hname⟩ | hname)
      · exact ⟨b, List.mem_append_left _ hb, hname⟩
      · exact ⟨a, List.mem_append_right _ (List.mem_singleton_self a), hname⟩
    · rintro ⟨b, hb, hname⟩
      obtain hb | hb := List.mem_append.1 hb
      · exact .inl ⟨b, hb, hname⟩
      · exact .inr (List.mem_singleton.1 hb ▸ hname)

end Found

/-! ### Hints -/

/-- An element links to a style sheet if it is a link and is marked so. -/
theorem roleOf_eq_stylesheet_iff {name : String} {rel : Option String} :
    roleOf name rel = .stylesheet ↔ SameButCase name "link" ∧ rel = some "stylesheet" := by
  have hlink : foldCase "link" = "link" := by decide
  rw [← foldCase_eq_foldCase_iff, hlink, roleOf]
  constructor
  · split_ifs with hcontent hstyle hscript hrel
    · nofun
    · nofun
    · nofun
    · exact fun _ => hrel
    · nofun
  · rintro ⟨hname, hrel⟩
    have hcontent : ¬ TagName.isContent "link" = true := by decide
    have hstyle : "link" ≠ "style" := by decide
    have hscript : "link" ≠ "script" := by decide
    rw [hname, if_neg hcontent, if_neg hstyle, if_neg hscript, if_pos ⟨rfl, hrel⟩]

/-- Hints by what is found. -/
theorem ofTag_eq (tag : Tag) :
    ofTag tag =
      { role := roleOf tag.name (Key.values .rel tag.attributes).getLast?
        select := selector (Key.values .select tag.attributes).getLast?
        href := (Key.values .href tag.attributes).getLast?
        nonBindable := (Found.ofAttributes tag.attributes).nonBindable
        projectAs := (Key.values .projectAs tag.attributes).getLast?.getD "" } := by
  rw [← Found.value_ofAttributes, ← Found.value_ofAttributes, ← Found.value_ofAttributes,
    ← Found.value_ofAttributes]
  rfl

theorem selector_eq (s : Option String) : selector s = (s.filter (· ≠ "")).getD "*" := by
  cases s with
  | none => rfl
  | some s =>
    by_cases hs : s = ""
    · subst hs
      rfl
    · simp [selector, hs, Option.filter]

/-- Elements of one name with the same values of every kind have the same hints. -/
theorem ofTag_eq_ofTag {tag other : Tag} (hname : other.name = tag.name)
    (hvalues : ∀ k : Key, k.values other.attributes = k.values tag.attributes)
    (hbind : (∃ a ∈ other.attributes, a.name = "ngNonBindable") ↔
      ∃ a ∈ tag.attributes, a.name = "ngNonBindable") : ofTag other = ofTag tag := by
  have hnonBindable : (Found.ofAttributes other.attributes).nonBindable =
      (Found.ofAttributes tag.attributes).nonBindable := by
    rwa [Bool.eq_iff_iff, Found.nonBindable_ofAttributes, Found.nonBindable_ofAttributes]
  rw [ofTag_eq, ofTag_eq, hname, hvalues, hvalues, hvalues, hvalues, hnonBindable]

/-- **What hints are read from**: the last `select` up to case, if it is not empty, the last `href`
and the last `rel` up to case, the last `ngProjectAs` that is not empty, and whether there is an
`ngNonBindable`. They depend on nothing else but the name: not on how attributes of different kinds
alternate, on where the element was read, on what translators are told of it, or on its children. -/
theorem hints_read (tag : Tag) :
    (ofTag tag).select = ((Key.values .select tag.attributes).getLast?.filter (· ≠ "")).getD "*" ∧
    (ofTag tag).href = (Key.values .href tag.attributes).getLast? ∧
    ((ofTag tag).nonBindable = true ↔ ∃ a ∈ tag.attributes, a.name = "ngNonBindable") ∧
    (ofTag tag).projectAs = (Key.values .projectAs tag.attributes).getLast?.getD "" ∧
    ((ofTag tag).role = .stylesheet ↔ SameButCase tag.name "link" ∧
      (Key.values .rel tag.attributes).getLast? = some "stylesheet") ∧
    ∀ other : Tag, other.name = tag.name →
      (∀ k : Key, k.values other.attributes = k.values tag.attributes) →
      ((∃ a ∈ other.attributes, a.name = "ngNonBindable") ↔
        ∃ a ∈ tag.attributes, a.name = "ngNonBindable") →
      ∀ children children',
        (Node.element other children').hints? = (Node.element tag children).hints? := by
  refine ⟨?_, ?_, ?_, ?_, ?_, ?_⟩
  · rw [ofTag_eq, selector_eq]
  · rw [ofTag_eq]
  · rw [ofTag_eq]
    exact Found.nonBindable_ofAttributes tag.attributes
  · rw [ofTag_eq]
  · simp only [ofTag_eq, roleOf_eq_stylesheet_iff]
  · intro other hname hvalues hbind children children'
    exact congrArg some (ofTag_eq_ofTag hname hvalues hbind)

/-- A link whose attributes are in another order, and that has a child. The last `select` is empty
and the last `ngProjectAs` too, but only the first of them counts. -/
theorem hints_read_interleaved :
    let span : Source.Span := ⟨.start default, .start default, none⟩
    let attr (name value : String) : Attribute := ⟨name, value, span, none, none⟩
    let tag : Tag := ⟨"LINK", [attr "select" ".a", attr "Select" "",
      attr "REL" "stylesheet", attr "ngNonBindable" "", attr "ngProjectAs" "b",
      attr "ngProjectAs" ""], span, span, none, none⟩
    let other : Tag := ⟨"LINK", [attr "ngProjectAs" "", attr "ngProjectAs" "b",
      attr "select" ".a", attr "REL" "stylesheet", attr "Select" "",
      attr "ngNonBindable" "x"], span, span, some span, none⟩
    (ofTag tag).select = "*" ∧ (ofTag tag).projectAs = "b" ∧ (ofTag tag).role = .stylesheet ∧
      (Node.element other [.element tag []]).hints? = (Node.element tag []).hints? := by
  intro span attr tag other
  have hvalues : ∀ k : Key, k.values other.attributes = k.values tag.attributes := by
    intro k
    cases k <;> decide
  have hbind : (∃ a ∈ other.attributes, a.name = "ngNonBindable") ↔
      ∃ a ∈ tag.attributes, a.name = "ngNonBindable" := by decide
  obtain ⟨hselect, -, -, hprojectAs, hrole, hsame⟩ := hints_read tag
  refine ⟨hselect.trans (by decide), hprojectAs.trans (by decide), hrole.2 (by decide), ?_⟩
  exact hsame other rfl hvalues hbind [] [.element tag []]

end Hints

end TemplateMarkup
