import TemplateMarkup.Proofs.Places
import TemplateMarkup.Proofs.Trim.FixedPoints
import Mathlib.Order.Bounds.Basic

/-!
# Trimming again and again

A run takes away the outermost markers only, and a text that was held by placeholders is blank
after it, so the run behind it may find something to do again. Not for long: with every run the
elements that only a marker had kept from being trimmed are freed of one more of their markers,
and a text takes two runs at most.

## The model

`runsLeft` is the number of runs that a node still has before it. A text goes or is in normal form
after one run, and only a text held by placeholders takes a second one. An element that carries the
marker takes a run to lose it, and unless its name alone keeps its content as it is, the runs of its
children come after that one.

## What is proved

* `runsLeft_trimmed?` — a run takes one off this number, and `runsLeftAll_iterate` — so do several.
* `runsLeft_eq_zero_iff` — it is zero exactly if trimming leaves the node alone.
* `fixed_after_iff` — so a tree stays as it is exactly from that number of runs on.
* `isGreatest_markerDepth` — `markerDepth` is the greatest number of markers on a chain of elements.
* `runs_converge` — two more runs than this are enough, and `runs_of_nest` — there are trees of any
  depth for which no fewer are.
-/

namespace TemplateMarkup

namespace Trim

open Layout (isBlank)

/-! ### Texts -/

/-- The number of runs that change a text. -/
def runsOfText (s : String) : Nat :=
  match Layout.trim? s with
  | none => 1
  | some s' => if s' = s then 0 else if isBlank s' then 2 else 1

theorem runsOfText_le_two (s : String) : runsOfText s ≤ 2 := by
  unfold runsOfText
  split
  · exact Nat.le_succ 1
  · split_ifs <;> simp

theorem runsOfText_of_none {s : String} (h : Layout.trim? s = none) : runsOfText s = 1 := by
  rw [runsOfText, h]

theorem runsOfText_of_some {s s' : String} (h : Layout.trim? s = some s') :
    runsOfText s = if s' = s then 0 else if isBlank s' then 2 else 1 := by
  rw [runsOfText, h]

theorem runsOfText_eq_zero_iff {s : String} : runsOfText s = 0 ↔ Layout.trim? s = some s := by
  cases h : Layout.trim? s with
  | none => simp [runsOfText_of_none h]
  | some s' =>
    rw [runsOfText_of_some h, Option.some.injEq]
    constructor
    · intro h0
      split_ifs at h0 with hs
      exact hs
    · intro hs
      exact if_pos hs

/-- A run takes one off the number, if a text comes out of it: a blank one goes in the next run, and
any other stays. -/
theorem runsOfText_trim? {s s' : String} (h : Layout.trim? s = some s') :
    runsOfText s' = runsOfText s - 1 := by
  cases hb : isBlank s' with
  | true =>
    have hgoes : Layout.trim? s' = none := Layout.trim?_eq_none_iff.2 hb
    have hne : s' ≠ s := by
      rintro rfl
      rw [hgoes] at h
      cases h
    rw [runsOfText_of_none hgoes, runsOfText_of_some h, if_neg hne, if_pos hb]
  | false =>
    have hstays : Layout.trim? s' = some s' :=
      Layout.trim?_eq_self_iff.2 ⟨hb, Layout.isNormal_trim h⟩
    have hs : runsOfText s ≤ 1 := by
      rw [runsOfText_of_some h]
      split_ifs <;> simp_all
    rw [runsOfText_eq_zero_iff.2 hstays]
    omega

/-! ### Nodes -/

mutual

/-- The number of runs that change a node or something in it. -/
def runsLeft : Node → Nat
  | .text x => runsOfText x.value
  | .attr a => if a.name = marker then 1 else 0
  | .element tag children =>
    (hasMarker tag).toNat + if tag.name ∈ verbatimTags then 0 else runsLeftAll children
  | .comment _ | .expansion _ _ | .expansionCase _ => 0

/-- The number of runs that change the nodes of a level. -/
def runsLeftAll : List Node → Nat
  | [] => 0
  | n :: ns => max (runsLeft n) (runsLeftAll ns)

end

theorem runsLeftAll_singleton (n : Node) : runsLeftAll [n] = runsLeft n := Nat.max_zero _

theorem runsLeftAll_append (ns ms : List Node) :
    runsLeftAll (ns ++ ms) = max (runsLeftAll ns) (runsLeftAll ms) := by
  induction ns with
  | nil => exact (Nat.zero_max _).symm
  | cons n ns ih => rw [List.cons_append, runsLeftAll, runsLeftAll, ih, Nat.max_assoc]

theorem runsLeftAll_le_iff {ns : List Node} {k : Nat} :
    runsLeftAll ns ≤ k ↔ ∀ n ∈ ns, runsLeft n ≤ k := by
  induction ns with
  | nil => simp [runsLeftAll]
  | cons n ns ih => rw [runsLeftAll, Nat.max_le, ih, List.forall_mem_cons]

/-- An element that does not keep its content as it is takes as many runs as its children. -/
theorem runsLeft_element_of_not_kept {tag : Tag} (hk : ¬ KeepsContent tag) (children : List Node) :
    runsLeft (.element tag children) = runsLeftAll children := by
  have hv : tag.name ∉ verbatimTags := fun hv => hk (.inl hv)
  have hm : hasMarker tag = false := by
    rw [← Bool.not_eq_true, hasMarker_iff]
    exact fun hm => hk (.inr hm)
  rw [runsLeft, if_neg hv, hm, Bool.toNat_false, Nat.zero_add]

/-- An element that keeps its content as it is has a run less to go when it has lost its marker: if
only the marker has kept the content, that is trimmed from then on. -/
theorem runsLeft_strip_of_kept {tag : Tag} (hk : KeepsContent tag) (children : List Node) :
    runsLeft (.element (strip tag) children) = runsLeft (.element tag children) - 1 := by
  by_cases hv : tag.name ∈ verbatimTags
  · have hname : (strip tag).name ∈ verbatimTags := hv
    have hone := Bool.toNat_le (hasMarker tag)
    rw [runsLeft, runsLeft, if_pos hv, if_pos hname, hasMarker_strip, Bool.toNat_false]
    omega
  · have hm : hasMarker tag = true := hasMarker_iff.2 (hk.resolve_left hv)
    rw [runsLeft_element_of_not_kept (mt keepsContent_strip.1 hv), runsLeft, if_neg hv, hm,
      Bool.toNat_true, Nat.add_sub_cancel_left]

/-- What a run takes off a level, if it is known of each of its nodes. -/
theorem runsLeftAll_trimmedAll_of {ns : List Node}
    (h : ∀ n ∈ ns, runsLeftAll (trimmed? n).toList = runsLeft n - 1) :
    runsLeftAll (trimmedAll ns) = runsLeftAll ns - 1 := by
  induction ns with
  | nil => rfl
  | cons n ns ih =>
    have hn := h n (List.mem_cons_self ..)
    have hns := ih fun m hm => h m (List.mem_cons_of_mem _ hm)
    rw [trimmedAll, runsLeftAll_append, hn, hns, runsLeftAll]
    omega

/-- **A run takes one off the number of runs.** A node that goes had none but this one left. -/
theorem runsLeft_trimmed? (n : Node) : runsLeftAll (trimmed? n).toList = runsLeft n - 1 := by
  induction n using Node.inductionOn with
  | text x =>
    cases hv : Layout.trim? x.value with
    | none =>
      have hx : trimmed? (.text x) = none := by
        rw [trimmed?_text, if_pos (Layout.trim?_eq_none_iff.1 hv)]
      rw [hx, runsLeft, runsOfText_of_none hv]
      rfl
    | some v =>
      have hx := trimmed?_text_eq_some_iff.2 ⟨v, hv, rfl⟩
      rw [hx, Option.toList_some, runsLeftAll_singleton]
      exact runsOfText_trim? hv
  | comment c => rfl
  | attr a =>
    by_cases ha : a.name = marker
    · rw [trimmed?_attr, if_pos ha, runsLeft, if_pos ha]
      rfl
    · rw [trimmed?_attr, if_neg ha, Option.toList_some, runsLeftAll_singleton, runsLeft, if_neg ha]
  | expansion s cases => rfl
  | expansionCase c => rfl
  | element tag children ih =>
    by_cases hk : KeepsContent tag
    · rw [trimmed?_element_of_kept hk, Option.toList_some, runsLeftAll_singleton]
      exact runsLeft_strip_of_kept hk children
    · have hstrip : ¬ KeepsContent (strip tag) := mt keepsContent_strip.1 fun hv => hk (.inl hv)
      rw [trimmed?_element_of_not_kept hk, Option.toList_some, runsLeftAll_singleton,
        runsLeft_element_of_not_kept hstrip, runsLeft_element_of_not_kept hk]
      exact runsLeftAll_trimmedAll_of ih

theorem runsLeftAll_trimmedAll (ns : List Node) : runsLeftAll (trimmedAll ns) = runsLeftAll ns - 1 :=
  runsLeftAll_trimmedAll_of fun n _ => runsLeft_trimmed? n

/-- When no run is left for a level, if it is known of each of its nodes. -/
theorem runsLeftAll_eq_zero_iff_of {ns : List Node}
    (h : ∀ n ∈ ns, runsLeft n = 0 ↔ trimmed? n = some n) :
    runsLeftAll ns = 0 ↔ trimmedAll ns = ns := by
  rw [← Nat.le_zero, runsLeftAll_le_iff, trimmedAll_eq_self_iff]
  exact forall₂_congr fun n hn => Nat.le_zero.trans (h n hn)

/-- No run is left exactly if trimming leaves the node alone. -/
theorem runsLeft_eq_zero_iff (n : Node) : runsLeft n = 0 ↔ trimmed? n = some n := by
  induction n using Node.inductionOn with
  | text x =>
    rw [runsLeft, runsOfText_eq_zero_iff, trimmed?_text_eq_self_iff, Layout.trim?_eq_self_iff]
  | comment c => simp [runsLeft]
  | attr a =>
    rw [runsLeft, trimmed?_attr_eq_self_iff]
    split_ifs with ha <;> simp [ha]
  | expansion s cases => simp [runsLeft]
  | expansionCase c => simp [runsLeft]
  | element tag children ih =>
    rw [trimmed?_element_eq_self_iff, ← hasMarker_eq_false_iff, runsLeft, Nat.add_eq_zero_iff,
      Bool.toNat_eq_zero]
    refine and_congr_right fun hm => ?_
    have hk : KeepsContent tag ↔ tag.name ∈ verbatimTags := by
      rw [← keepsContent_strip, hasMarker_eq_false_iff.1 hm]
    rw [hk, ← runsLeftAll_eq_zero_iff_of ih]
    split_ifs with hv <;> simp [hv]

theorem runsLeftAll_eq_zero_iff {ns : List Node} : runsLeftAll ns = 0 ↔ trimmedAll ns = ns :=
  runsLeftAll_eq_zero_iff_of fun n _ => runsLeft_eq_zero_iff n

/-! ### Several runs -/

theorem runsLeftAll_iterate (ns : List Node) (k : Nat) :
    runsLeftAll (trimmedAll^[k] ns) = runsLeftAll ns - k := by
  induction k with
  | zero => rfl
  | succ k ih => rw [Function.iterate_succ_apply', runsLeftAll_trimmedAll, ih, Nat.sub_sub]

/-- Running over a tree again and again is running over its roots again and again. -/
theorem iterate_tree (t : Tree) (k : Nat) :
    (fun t => (tree t).result)^[k] t = { t with roots := trimmedAll^[k] t.roots } := by
  induction k with
  | zero => rfl
  | succ k ih => rw [Function.iterate_succ_apply', ih, result_tree, Function.iterate_succ_apply']

/-- **The number of runs is exact**: from this number of runs on the tree stays as it is, and
before that no run leaves it alone. -/
theorem fixed_after_iff (t : Tree) (k : Nat) :
    (fun t => (tree t).result)^[k + 1] t = (fun t => (tree t).result)^[k] t ↔
      runsLeftAll t.roots ≤ k := by
  have hroots : (fun t => (tree t).result)^[k + 1] t = (fun t => (tree t).result)^[k] t ↔
      trimmedAll (trimmedAll^[k] t.roots) = trimmedAll^[k] t.roots := by
    rw [iterate_tree, iterate_tree, Function.iterate_succ_apply', Tree.mk.injEq]
    exact and_iff_left rfl
  rw [hroots, ← runsLeftAll_eq_zero_iff, runsLeftAll_iterate, Nat.sub_eq_zero_iff_le]

/-- A tree that a run has left alone is left alone by all runs behind it. -/
theorem iterate_add_of_le {t : Tree} {k : Nat} (h : runsLeftAll t.roots ≤ k) (j : Nat) :
    (fun t => (tree t).result)^[k + j] t = (fun t => (tree t).result)^[k] t := by
  have hfix := (fixed_after_iff t k).2 h
  rw [Function.iterate_succ_apply'] at hfix
  rw [Nat.add_comm, Function.iterate_add_apply]
  exact Function.iterate_fixed hfix j

/-! ### How deep markers are nested -/

/-- Whether a node is an element that carries the marker. -/
def carriesMarker : Node → Bool
  | .element tag _ => hasMarker tag
  | _ => false

/-- **Chain of nested elements**: each of them stands, however deep, inside the next one. -/
inductive ElementChain (roots : List Node) : List Node → Prop where
  /-- No element at all. -/
  | none : ElementChain roots []
  /-- A node and what it stands inside, or any part of it that is made of elements only. -/
  | along {above chain : List Node} {n : Node} : Stands roots above n → chain.Sublist (n :: above) →
      (∀ m ∈ chain, m.kind = .element) → ElementChain roots chain

/-- The number of elements that carry the marker on the way from a place to the root it is in. -/
def markersAlong (p : Place) : Nat := (p.node :: p.above).countP carriesMarker

/-- The greatest number of markers on the way from any place to its root. -/
def markerDepth (roots : List Node) : Nat :=
  (((Node.placesAll roots).map markersAlong).max?).getD 0

theorem markerDepth_le_iff {roots : List Node} {d : Nat} :
    markerDepth roots ≤ d ↔ ∀ p ∈ Node.placesAll roots, markersAlong p ≤ d := by
  unfold markerDepth
  cases h : ((Node.placesAll roots).map markersAlong).max? with
  | none =>
    have hempty : Node.placesAll roots = [] := List.map_eq_nil_iff.1 (List.max?_eq_none_iff.1 h)
    simp [hempty]
  | some k =>
    obtain ⟨hk, hmax⟩ := List.max?_eq_some_iff.1 h
    obtain ⟨q, hq, rfl⟩ := List.mem_map.1 hk
    constructor
    · intro hle p hp
      exact (hmax _ (List.mem_map_of_mem hp)).trans hle
    · intro hall
      exact hall q hq

theorem countP_le_markerDepth {roots above : List Node} {n : Node} (h : Stands roots above n) :
    (n :: above).countP carriesMarker ≤ markerDepth roots :=
  markerDepth_le_iff.1 le_rfl ⟨above, n⟩ (mem_placesAll_iff.2 h)

/-- The greatest number is found at some place, if it is not zero. -/
theorem markerDepth_eq_zero_or (roots : List Node) :
    markerDepth roots = 0 ∨ ∃ p ∈ Node.placesAll roots, markersAlong p = markerDepth roots := by
  unfold markerDepth
  cases h : ((Node.placesAll roots).map markersAlong).max? with
  | none => exact .inl rfl
  | some k =>
    obtain ⟨p, hp, hk⟩ := List.mem_map.1 (List.max?_eq_some_iff.1 h).1
    exact .inr ⟨p, hp, hk⟩

theorem kind_of_carriesMarker {n : Node} (h : carriesMarker n = true) : n.kind = .element := by
  cases n with
  | element tag children => rfl
  | _ => cases h

/-- **The depth of markers** is the greatest number of elements that carry the marker on any one
chain of nested elements. It is found on the chain of all elements around some place, that of the
place included. -/
theorem isGreatest_markerDepth (roots : List Node) :
    IsGreatest {k | ∃ chain, ElementChain roots chain ∧ chain.countP carriesMarker = k}
      (markerDepth roots) := by
  constructor
  · obtain h | ⟨⟨above, n⟩, hp, h⟩ := markerDepth_eq_zero_or roots
    · exact ⟨[], .none, h.symm⟩
    · refine ⟨(n :: above).filter fun m => m.kind = .element,
        .along (mem_placesAll_iff.1 hp) List.filter_sublist fun m hm => ?_, ?_⟩
      · exact of_decide_eq_true (List.mem_filter.1 hm).2
      · rw [← h, List.countP_filter, markersAlong]
        refine List.countP_congr fun m _ => ?_
        rw [Bool.and_eq_true, decide_eq_true_eq]
        exact and_iff_left_of_imp kind_of_carriesMarker
  · rintro k ⟨chain, hchain, rfl⟩
    cases hchain with
    | none => exact Nat.zero_le _
    | along hs hsub _ => exact hsub.countP_le.trans (countP_le_markerDepth hs)

/-! ### How many runs are enough -/

theorem countP_carriesMarker_element (tag : Tag) (children : List Node) :
    [Node.element tag children].countP carriesMarker = (hasMarker tag).toNat := by
  rw [List.countP_singleton]
  cases h : hasMarker tag <;> simp [carriesMarker, h]

/-- A node takes at most two runs more than there are markers on any way down to a place in it
that leads through elements alone. -/
theorem runsLeft_le {n : Node} {d : Nat} (h : ∀ above m, Stands [n] above m →
    (∀ a ∈ above, a.kind = .element) → (m :: above).countP carriesMarker ≤ d) :
    runsLeft n ≤ d + 2 := by
  induction n using Node.inductionOn generalizing d with
  | text x => exact (runsOfText_le_two x.value).trans (Nat.le_add_left 2 d)
  | attr a =>
    rw [runsLeft]
    split_ifs <;> omega
  | element tag children ih =>
    have hown : (hasMarker tag).toNat ≤ d := by
      rw [← countP_carriesMarker_element tag children]
      exact h [] _ (.root (List.mem_singleton_self _)) fun a ha => absurd ha List.not_mem_nil
    have hchildren : runsLeftAll children ≤ d - (hasMarker tag).toNat + 2 := by
      refine runsLeftAll_le_iff.2 fun c hc => ih c hc fun above m hm habove => ?_
      have hall := h _ m (hm.of_child hc) (List.forall_mem_append.2 ⟨habove, by simp [Node.kind]⟩)
      rw [← List.cons_append, List.countP_append, countP_carriesMarker_element] at hall
      omega
    rw [runsLeft]
    split_ifs <;> omega
  | _ => exact Nat.zero_le _

theorem runsLeftAll_le {ns : List Node} {d : Nat} (h : ∀ above m, Stands ns above m →
    (∀ a ∈ above, a.kind = .element) → (m :: above).countP carriesMarker ≤ d) :
    runsLeftAll ns ≤ d + 2 := by
  refine runsLeftAll_le_iff.2 fun n hn => runsLeft_le fun above m hm habove => h above m ?_ habove
  exact mem_placesAll_iff.1 (Node.mem_placesAll.2 ⟨n, hn, mem_places_iff_stands.2 hm⟩)

/-- **Repeated runs converge**: two runs more than there are markers on any chain of nested
elements, and the tree stays as it is, however often it is trimmed after that. Of the chains it is
enough to look at those that lead through elements alone, and not into an expansion. -/
theorem runs_converge (t : Tree) :
    IsGreatest {k | ∃ chain, ElementChain t.roots chain ∧ chain.countP carriesMarker = k}
      (markerDepth t.roots) ∧
    (∀ j, (fun t => (tree t).result)^[markerDepth t.roots + 2 + j] t =
      (fun t => (tree t).result)^[markerDepth t.roots + 2] t) ∧
    ∀ d, (∀ above n, Stands t.roots above n → (∀ a ∈ above, a.kind = .element) →
        (n :: above).countP carriesMarker ≤ d) →
      ∀ j, (fun t => (tree t).result)^[d + 2 + j] t = (fun t => (tree t).result)^[d + 2] t := by
  refine ⟨isGreatest_markerDepth t.roots, fun j => ?_, fun d hd j => ?_⟩
  · exact iterate_add_of_le (runsLeftAll_le fun _ _ h _ => countP_le_markerDepth h) j
  · exact iterate_add_of_le (runsLeftAll_le hd) j

/-- A marked element with a placeholder in it, and beside that an expansion with another marked
element: the chain into the expansion has two markers, but three runs are enough. -/
theorem runs_converge_past_expansion :
    let s : Source.Span := ⟨.start default, .start default, none⟩
    let tag : Tag := ⟨"div", [⟨marker, "", s, none, none⟩], s, s, none, none⟩
    let t : Tree := ⟨[.element tag [.text ⟨"\ue500", s, none⟩,
      .expansion ⟨"", "", s, s, none⟩ [.mk ⟨"", s, s, s⟩ [.element tag []]]]], []⟩
    markerDepth t.roots = 2 ∧
      (∀ above n, Stands t.roots above n → (∀ a ∈ above, a.kind = .element) →
        (n :: above).countP carriesMarker ≤ 1) ∧
      ∀ j, (fun t => (tree t).result)^[3 + j] t = (fun t => (tree t).result)^[3] t := by
  intro s tag t
  have hdepth : markerDepth t.roots = 2 := by decide
  have hplaces : ∀ p ∈ Node.placesAll t.roots, (∀ a ∈ p.above, a.kind = .element) →
      (p.node :: p.above).countP carriesMarker ≤ 1 := by decide
  have hbound : ∀ above n, Stands t.roots above n → (∀ a ∈ above, a.kind = .element) →
      (n :: above).countP carriesMarker ≤ 1 :=
    fun above n h => hplaces ⟨above, n⟩ (mem_placesAll_iff.2 h)
  exact ⟨hdepth, hbound, (runs_converge t).2.2 1 hbound⟩

/-! ### No fewer runs are enough -/

/-- A text that is a lone placeholder, inside `d` elements that all have the same tag. -/
def nest (tag : Tag) : Nat → Node
  | 0 => .text ⟨"\ue500", tag.span, none⟩
  | d + 1 => .element tag [nest tag d]

variable {tag : Tag}

/-- One marker is taken away in each run, then the placeholder becomes a space, and then that
goes. -/
theorem runsLeft_nest (hm : hasMarker tag = true) (hv : tag.name ∉ verbatimTags) (d : Nat) :
    runsLeft (nest tag d) = d + 2 := by
  induction d with
  | zero => exact (by decide : runsOfText "\ue500" = 2)
  | succ d ih =>
    rw [nest, runsLeft, if_neg hv, runsLeftAll_singleton, ih, hm, Bool.toNat_true]
    omega

theorem markersAlong_nest_le (tag : Tag) (d : Nat) :
    ∀ p ∈ (nest tag d).places, markersAlong p ≤ d := by
  induction d with
  | zero =>
    intro p hp
    obtain rfl := List.mem_singleton.1 hp
    exact Nat.le_refl 0
  | succ d ih =>
    intro p hp
    obtain rfl | ⟨q, hq, r, hr, rfl⟩ := Node.mem_places_iff.1 hp
    · exact List.countP_le_length.trans (Nat.le_add_left 1 d)
    · obtain ⟨m, hm, rfl⟩ := List.mem_map.1 hq
      obtain rfl := List.mem_singleton.1 hm
      have hr := ih r hr
      unfold markersAlong at hr ⊢
      rw [Place.above_under, Place.node_under, ← List.cons_append, List.countP_append,
        countP_carriesMarker_element]
      have := Bool.toNat_le (hasMarker tag)
      omega

/-- **The bound cannot be lowered**: for every depth there is a tree that changes once more in the
last of the runs that are enough. -/
theorem runs_of_nest (hm : hasMarker tag = true) (hv : tag.name ∉ verbatimTags) (d : Nat)
    (errors : List Diagnostic) :
    markerDepth [nest tag d] = d ∧
    (fun t => (tree t).result)^[d + 2] ⟨[nest tag d], errors⟩ ≠
      (fun t => (tree t).result)^[d + 1] ⟨[nest tag d], errors⟩ := by
  have hruns : runsLeftAll [nest tag d] = d + 2 := by
    rw [runsLeftAll_singleton, runsLeft_nest hm hv]
  refine ⟨le_antisymm ?_ ?_, fun h => ?_⟩
  · refine markerDepth_le_iff.2 fun p hp => markersAlong_nest_le tag d p ?_
    rwa [Node.placesAll_singleton] at hp
  · have hle := runsLeftAll_le fun above n (h : Stands [nest tag d] above n) _ =>
      countP_le_markerDepth h
    omega
  · have hle := (fixed_after_iff _ _).1 h
    rw [hruns] at hle
    omega

end Trim

end TemplateMarkup
