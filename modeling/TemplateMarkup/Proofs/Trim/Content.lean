import TemplateMarkup.Proofs.Layout.Words
import TemplateMarkup.Proofs.Trim.Passes
import TemplateMarkup.Proofs.Trim.Places

/-!
# No content is lost

What a reader sees of a template are the words of its texts. Trimming drops texts and rewrites
others, but no text goes that has any content, and no text becomes one with other words.

## The model

The texts of a tree are gone through in document order, place by place. A text stands outside
all expansions if the nodes it stands inside are neither expansions nor their cases.

## What is proved

* `outcome?_text_cases` — what can become of a text: it goes if it is blank, and has the words
  it had if it stays.
* `filter_isSolid_charsWhere` — so the characters of words are the same before and after, all
  together or in any part of the tree that trimming respects.
* `content_kept` — the words of a tree are kept, text by text and as a whole.
-/

namespace TemplateMarkup

open Layout (isLayout isBlank isSolid noBreakSpace placeholder KeepsWords)

/-! ### The texts of a tree -/

namespace Node

/-- The characters of a text; none of any other node. -/
def chars : Node → List Char
  | .text t => t.value.toList
  | _ => []

/-- Whether a node is an expansion or a case of one. -/
def isChoice : Node → Bool
  | .expansion _ _ | .expansionCase _ => true
  | _ => false

end Node

/-- Whether a place is outside all expansions. -/
def Place.outsideExpansions (p : Place) : Bool := !p.above.any Node.isChoice

/-- The texts at certain places of a tree, put together in document order. -/
def charsWhere (keep : Place → Bool) (roots : List Node) : List Char :=
  ((Node.placesAll roots).filter keep).flatMap fun p => p.node.chars

namespace Trim

/-! ### What becomes of a text -/

/-- The text `y` is what is left of `x`, and lacks nothing. -/
structure TextKept (x y : Text) : Prop where
  /-- It has the same span. -/
  span : y.span = x.span
  /-- It has the same notes. -/
  i18n : y.i18n = x.i18n
  /-- It has the same words. -/
  words : KeepsWords x.value.toList y.value.toList

theorem textKept_of_trim? {x : Text} {v : String} (h : Layout.trim? x.value = some v) :
    TextKept x { x with value := v } :=
  ⟨rfl, rfl, Layout.keepsWords_of_trim? h⟩

/-- Wherever a text stands, it goes only if it is blank, and lacks nothing if it stays. -/
theorem outcome?_text_cases (above : List Node) (x : Text) :
    (isBlank x.value = true ∧ outcome? above (.text x) = none) ∨
      ∃ y, outcome? above (.text x) = some (.text y) ∧ TextKept x y := by
  by_cases h : Exposed above
  · rw [outcome?_of_exposed h]
    cases hv : Layout.trim? x.value with
    | none =>
      have hb := Layout.trim?_eq_none_iff.1 hv
      exact .inl ⟨hb, by rw [trimmed?_text, if_pos hb]⟩
    | some v =>
      exact .inr ⟨_, trimmed?_text_eq_some_iff.2 ⟨v, hv, rfl⟩, textKept_of_trim? hv⟩
  · exact .inr ⟨x, outcome?_of_not_exposed h _, rfl, rfl, KeepsWords.refl _⟩

theorem filter_isSolid_of_isBlank {s : String} (h : isBlank s = true) :
    s.toList.filter isSolid = [] := by
  refine List.filter_eq_nil_iff.2 fun c hc => ?_
  rw [Bool.not_eq_true, Layout.isSolid_eq_false_iff]
  exact .inl (Layout.isBlank_iff.1 h c hc)

/-- A node that goes had no words. -/
theorem filter_chars_of_outcome?_eq_none {above : List Node} {n : Node}
    (h : outcome? above n = none) : n.chars.filter isSolid = [] := by
  cases n with
  | text x =>
    obtain ⟨hb, -⟩ | ⟨y, hy, -⟩ := outcome?_text_cases above x
    · exact filter_isSolid_of_isBlank hb
    · rw [hy] at h
      cases h
  | _ => rfl

/-- What becomes of a node has its words, and is an expansion or a case if the node is one. -/
theorem chars_of_trimmed? {n m : Node} (h : trimmed? n = some m) :
    m.chars.filter isSolid = n.chars.filter isSolid ∧ m.isChoice = n.isChoice := by
  cases n with
  | text x =>
    obtain ⟨v, hv, rfl⟩ := trimmed?_text_eq_some_iff.1 h
    exact ⟨(textKept_of_trim? hv).words.solid, rfl⟩
  | attr a =>
    obtain ⟨-, rfl⟩ := trimmed?_attr_eq_some_iff.1 h
    exact ⟨rfl, rfl⟩
  | element tag children =>
    rw [trimmed?_element] at h
    cases h
    exact ⟨rfl, rfl⟩
  | _ => cases h; exact ⟨rfl, rfl⟩

theorem chars_of_outcome?_eq_some {above : List Node} {n m : Node} (h : outcome? above n = some m) :
    m.chars.filter isSolid = n.chars.filter isSolid ∧ m.isChoice = n.isChoice := by
  by_cases he : Exposed above
  · exact chars_of_trimmed? (outcome?_of_exposed he n ▸ h)
  · rw [outcome?_of_not_exposed he] at h
    cases h
    exact ⟨rfl, rfl⟩

/-- A node that goes is no expansion, and no case of one. -/
theorem isChoice_of_outcome?_eq_none {above : List Node} {n : Node} (h : outcome? above n = none) :
    n.isChoice = false := by
  by_cases he : Exposed above
  · rw [outcome?_of_exposed he] at h
    cases n with
    | expansion s cases => cases h
    | expansionCase c => cases h
    | _ => rfl
  · rw [outcome?_of_not_exposed he] at h
    cases h

/-! ### What becomes of the texts of a tree -/

theorem any_isChoice_outcomes (above : List Node) :
    (outcomes above).any Node.isChoice = above.any Node.isChoice := by
  induction above with
  | nil => rfl
  | cons a above ih =>
    rw [outcomes, List.any_append, List.any_cons, ih]
    cases h : outcome? above a with
    | none => simp [isChoice_of_outcome?_eq_none h]
    | some b => simp [(chars_of_outcome?_eq_some h).2]

/-- A place that stays is outside all expansions exactly if it was. -/
theorem outsideExpansions_of_trimmed? {p q : Place} (h : p.trimmed? = some q) :
    q.outsideExpansions = p.outsideExpansions := by
  obtain ⟨n, -, rfl⟩ := Option.map_eq_some_iff.1 h
  rw [Place.outsideExpansions, any_isChoice_outcomes]
  rfl

/-- The characters of words at certain places are the same before and after, if trimming
respects the choice of the places. -/
theorem filter_isSolid_charsWhere {keep : Place → Bool}
    (hkeep : ∀ p q, p.trimmed? = some q → keep q = keep p) (ns : List Node) :
    (charsWhere keep (trimmedAll ns)).filter isSolid = (charsWhere keep ns).filter isSolid := by
  rw [charsWhere, charsWhere, placesAll_trimmedAll]
  induction Node.placesAll ns with
  | nil => rfl
  | cons p ps ih =>
    cases h : p.trimmed? with
    | none =>
      have hp := filter_chars_of_outcome?_eq_none (Option.map_eq_none_iff.1 h)
      rw [List.filterMap_cons_none h, ih, List.filter_cons]
      split <;> simp [hp]
    | some q =>
      obtain ⟨n, hn, rfl⟩ := Option.map_eq_some_iff.1 h
      have hp := (chars_of_outcome?_eq_some hn).1
      rw [List.filterMap_cons_some h, List.filter_cons, List.filter_cons, hkeep p _ h]
      split <;> simp [hp, ih]

/-! ### Trees -/

/-- **No content is lost or invented**: the texts outside expansions, and with them those in
expansions, have the same characters of words as before. What is left of the nodes is left of
them one by one, in document order; every text with any content, if only a no-break space or a
placeholder, is left as a text by itself, in its place, and two characters of its words are apart
exactly if they were. -/
theorem content_kept (t : Tree) :
    (charsWhere Place.outsideExpansions (tree t).result.roots).filter isSolid =
      (charsWhere Place.outsideExpansions t.roots).filter isSolid ∧
    (charsWhere (fun _ => true) (tree t).result.roots).filter isSolid =
      (charsWhere (fun _ => true) t.roots).filter isSolid ∧
    Node.placesAll (tree t).result.roots = (Node.placesAll t.roots).filterMap Place.trimmed? ∧
    ∀ p ∈ Node.placesAll t.roots, ∀ x, p.node = .text x →
      (∃ c ∈ x.value.toList, isLayout c = false ∨ c = noBreakSpace ∨ c = placeholder) →
      ∃ y, p.trimmed? = some ⟨outcomes p.above, .text y⟩ ∧ TextKept x y := by
  rw [result_tree]
  refine ⟨filter_isSolid_charsWhere (fun _ _ => outsideExpansions_of_trimmed?) t.roots,
    filter_isSolid_charsWhere (fun _ _ _ => rfl) t.roots, placesAll_trimmedAll t.roots, ?_⟩
  rintro ⟨above, n⟩ - x rfl ⟨c, hc, hkind⟩
  have hcontent : isLayout c = false := by
    rcases hkind with hcontent | rfl | rfl
    · exact hcontent
    · exact Layout.isLayout_noBreakSpace
    · exact Layout.isLayout_placeholder
  obtain ⟨hb, -⟩ | ⟨y, hy, hk⟩ := outcome?_text_cases above x
  · rw [Layout.isBlank_iff.1 hb c hc] at hcontent
    cases hcontent
  · exact ⟨y, by rw [Place.trimmed?, hy]; rfl, hk⟩

end Trim

end TemplateMarkup
