import TemplateMarkup.Proofs.Layout.Words
import TemplateMarkup.Trim.Rules
import Mathlib.Data.List.SplitBy

/-!
# Runs and stretches

Trimming in closed form. A text is cut into the longest pieces that are all layout or have no
layout in them, and each piece is rewritten by itself. Collapsing reads a text from left to
right and never sees a piece as a whole, and a placeholder next to layout is filled before the
layout around it is collapsed; this module says what all of that comes to.

## The model

`Pieces p cs ps` says that `ps` are the longest pieces of `cs` that are alike in `p`: the runs of
characters with `p` and the stretches between them. `Replaced` says what it is to search a text
for runs of two or more layout characters, from left to right, and to replace each of them: the
next match is the leftmost one, it is taken as long as it can be, and the search goes on behind
it.

## What is proved

* `pieces_iff` — there is one way to cut a text into pieces.
* `collapseChars_eq_flatMap` and `collapse_fill_eq_flatMap` — collapsing rewrites piece by piece,
  and so does filling placeholders first.
* `replaced_iff` — to collapse is to search and to replace.
* `text_in_closed_form` — what trimming makes of a text, piece by piece.
-/

namespace TemplateMarkup

namespace Layout

/-! ### Cutting a text into pieces -/

/-- **Pieces**: the texts `ps` one after the other are the text `cs`, each of them as long as its
characters are alike in `p`. -/
structure Pieces (p : Char → Bool) (cs : List Char) (ps : List (List Char)) : Prop where
  /-- Nothing is lost and nothing added. -/
  flatten : ps.flatten = cs
  /-- There is something in every piece. -/
  nonempty : [] ∉ ps
  /-- The characters of a piece are alike. -/
  alike : ∀ q ∈ ps, ∃ b, ∀ c ∈ q, p c = b
  /-- The characters of neighbours are not. -/
  maximal : ps.IsChain fun q r => ∀ c ∈ q, ∀ d ∈ r, p c ≠ p d

/-- The characters of a text are alike if each is like the next one. -/
theorem alike_iff_isChain {p : Char → Bool} {q : List Char} :
    (∃ b, ∀ c ∈ q, p c = b) ↔ q.IsChain fun c d => (p c == p d) = true := by
  induction q with
  | nil => simp
  | cons c q ih =>
    constructor
    · rintro ⟨b, hb⟩
      obtain ⟨hc, hq⟩ := List.forall_mem_cons.1 hb
      refine List.isChain_cons.2 ⟨fun d hd => ?_, ih.1 ⟨b, hq⟩⟩
      rw [hc, hq d (List.mem_of_mem_head? hd)]
      exact beq_self_eq_true b
    · intro h
      obtain ⟨b, hb⟩ := ih.2 h.tail
      refine ⟨p c, List.forall_mem_cons.2 ⟨rfl, fun e he => ?_⟩⟩
      obtain ⟨d, q', rfl⟩ := List.exists_cons_of_ne_nil (List.ne_nil_of_mem he)
      have hcd : p c = p d := eq_of_beq (List.isChain_cons_cons.1 h).1
      rw [hb e he, hcd, hb d (List.mem_cons_self ..)]

/-- There is one way to cut a text into pieces. -/
theorem pieces_iff {p : Char → Bool} {cs : List Char} {ps : List (List Char)} :
    Pieces p cs ps ↔ cs.splitBy (fun c d => p c == p d) = ps := by
  rw [List.splitBy_eq_iff]
  constructor
  · rintro ⟨rfl, hne, halike, hmax⟩
    refine ⟨rfl, hne, fun q hq => alike_iff_isChain.1 (halike q hq), ?_⟩
    refine hmax.imp_of_mem_imp fun q r hq hr h => ?_
    have hq' : q ≠ [] := fun e => hne (e ▸ hq)
    have hr' : r ≠ [] := fun e => hne (e ▸ hr)
    exact ⟨hq', hr', beq_false_of_ne (h _ (List.getLast_mem hq') _ (List.head_mem hr'))⟩
  · rintro ⟨rfl, hne, hchain, hsplit⟩
    have halike : ∀ q ∈ ps, ∃ b, ∀ c ∈ q, p c = b := fun q hq => alike_iff_isChain.2 (hchain q hq)
    refine ⟨rfl, hne, halike, ?_⟩
    refine hsplit.imp_of_mem_imp fun q r hq hr ⟨hq', hr', h⟩ c hc d hd => ?_
    obtain ⟨b, hb⟩ := halike q hq
    obtain ⟨b', hb'⟩ := halike r hr
    have hne : p (q.getLast hq') ≠ p (r.head hr') := ne_of_beq_false h
    rwa [hb c hc, hb' d hd, ← hb _ (List.getLast_mem hq'), ← hb' _ (List.head_mem hr')]

theorem existsUnique_pieces (p : Char → Bool) (cs : List Char) : ∃! ps, Pieces p cs ps :=
  ⟨_, pieces_iff.2 rfl, fun _ h => (pieces_iff.1 h).symm⟩

/-! ### Rewriting a piece -/

/-- What is written for a run: a single layout character as it is, and one space for any other
run. -/
def writeRun : List Char → List Char
  | [c] => if isLayout c then [c] else [space]
  | _ => [space]

/-- What is written for a piece: a stretch as it is, and for a run what is written for runs. -/
def writePiece (p : Char → Bool) (q : List Char) : List Char := if q.all p then writeRun q else q

theorem writePiece_of_all {p : Char → Bool} {q : List Char} (h : ∀ c ∈ q, p c = true) :
    writePiece p q = writeRun q :=
  if_pos (List.all_eq_true.2 h)

theorem writePiece_of_mem {p : Char → Bool} {q : List Char} {c : Char} (hc : c ∈ q)
    (h : p c = false) : writePiece p q = q := by
  refine if_neg fun hall => ?_
  rw [List.all_eq_true.1 hall c hc] at h
  cases h

/-! ### Collapsing piece by piece -/

/-- Layout characters are remembered until the run of them ends. -/
theorem collapseFrom_append {run : List Char} (hrun : ∀ c ∈ run, isLayout c = true) (p : Pending)
    (rest : List Char) : collapseFrom p (run ++ rest) = collapseFrom (run.foldl Pending.push p) rest := by
  induction run generalizing p with
  | nil => rfl
  | cons c run ih =>
    obtain ⟨hc, hrun⟩ := List.forall_mem_cons.1 hrun
    rw [List.cons_append, collapseFrom_layout hc, ih hrun]
    rfl

/-- Behind a run nothing is remembered of it. -/
theorem collapseFrom_eq_flush_append {rest : List Char}
    (hrest : ∀ c ∈ rest.head?, isLayout c = false) (p : Pending) :
    collapseFrom p rest = p.flush ++ collapseChars rest := by
  cases rest with
  | nil => simp [collapseChars, Pending.flush]
  | cons c rest =>
    have hc : isLayout c = false := hrest c rfl
    rw [collapseChars, collapseFrom_content hc, collapseFrom_content hc]
    rfl

theorem foldl_push_many (run : List Char) : run.foldl Pending.push .many = .many := by
  induction run with
  | nil => rfl
  | cons c run ih => exact ih

/-- What is remembered of a run is what is written for it. -/
theorem flush_foldl_push {run : List Char} (hrun : ∀ c ∈ run, isLayout c = true) (hne : run ≠ []) :
    (run.foldl Pending.push .none).flush = writeRun run := by
  rcases run with _ | ⟨c, _ | ⟨d, run⟩⟩
  · exact absurd rfl hne
  · rw [writeRun, if_pos (hrun c (List.mem_cons_self ..))]
    rfl
  · rw [List.foldl_cons, List.foldl_cons]
    exact congrArg Pending.flush (foldl_push_many run)

/-- A run at the front of a text is collapsed by itself, if it ends where content begins. -/
theorem collapseChars_run_append {run rest : List Char} (hrun : ∀ c ∈ run, isLayout c = true)
    (hne : run ≠ []) (hrest : ∀ c ∈ rest.head?, isLayout c = false) :
    collapseChars (run ++ rest) = writeRun run ++ collapseChars rest := by
  rw [collapseChars, collapseFrom_append hrun, collapseFrom_eq_flush_append hrest,
    flush_foldl_push hrun hne]

/-- A stretch at the front of a text stays as it is. -/
theorem collapseChars_stretch_append {stretch : List Char} (h : ∀ c ∈ stretch, isLayout c = false)
    (rest : List Char) : collapseChars (stretch ++ rest) = stretch ++ collapseChars rest := by
  induction stretch with
  | nil => rfl
  | cons c stretch ih =>
    obtain ⟨hc, h⟩ := List.forall_mem_cons.1 h
    rw [List.cons_append, collapseChars, collapseFrom_content hc, ← collapseChars, ih h]
    rfl

/-- Behind a piece of layout content begins. -/
theorem Pieces.isLayout_head? {q : List Char} {ps : List (List Char)} {cs : List Char}
    (h : Pieces isLayout cs (q :: ps)) (hq : ∀ c ∈ q, isLayout c = true) :
    ∀ d ∈ ps.flatten.head?, isLayout d = false := by
  intro d hd
  cases ps with
  | nil => cases hd
  | cons r ps =>
    obtain ⟨hq', hps⟩ := not_or.1 (mt List.mem_cons.2 h.nonempty)
    obtain ⟨hr', -⟩ := not_or.1 (mt List.mem_cons.2 hps)
    obtain ⟨c, q, rfl⟩ := List.exists_cons_of_ne_nil (Ne.symm hq')
    obtain ⟨e, r, rfl⟩ := List.exists_cons_of_ne_nil (Ne.symm hr')
    have hmax := (List.isChain_cons_cons.1 h.maximal).1 c (List.mem_cons_self ..) e
      (List.mem_cons_self ..)
    rw [hq c (List.mem_cons_self ..)] at hmax
    cases hd
    exact Bool.eq_false_iff.2 (Ne.symm hmax)

theorem Pieces.tail {p : Char → Bool} {q : List Char} {ps : List (List Char)} {cs : List Char}
    (h : Pieces p cs (q :: ps)) : Pieces p ps.flatten ps where
  flatten := rfl
  nonempty := fun hps => h.nonempty (List.mem_cons_of_mem _ hps)
  alike := fun r hr => h.alike r (List.mem_cons_of_mem _ hr)
  maximal := h.maximal.tail

/-- **Collapsing rewrites piece by piece.** -/
theorem collapseChars_eq_flatMap {cs : List Char} {ps : List (List Char)}
    (h : Pieces isLayout cs ps) : collapseChars cs = ps.flatMap (writePiece isLayout) := by
  induction ps generalizing cs with
  | nil => rw [← h.flatten]; rfl
  | cons q ps ih =>
    have hne : q ≠ [] := fun e => h.nonempty (e ▸ List.mem_cons_self ..)
    rw [← h.flatten, List.flatten_cons, List.flatMap_cons, ← ih h.tail]
    obtain ⟨b, hb⟩ := h.alike q (List.mem_cons_self ..)
    cases b with
    | true =>
      rw [writePiece_of_all hb, collapseChars_run_append hb hne (h.isLayout_head? hb)]
    | false =>
      obtain ⟨c, hc⟩ := List.exists_mem_of_ne_nil q hne
      rw [writePiece_of_mem hc (hb c hc), collapseChars_stretch_append hb]

/-! ### Filling first -/

/-- Whether a character belongs to a gap between words: it is layout or the placeholder. -/
def isGap (c : Char) : Bool := isLayout c || decide (c = placeholder)

theorem isGap_iff {c : Char} : isGap c = true ↔ isLayout c = true ∨ c = placeholder := by
  simp [isGap]

theorem isGap_eq_not_isSolid (c : Char) : isGap c = !isSolid c := by
  simp [isGap, isSolid, isContent]

/-- Filling makes layout of all that is in a gap, and of nothing else. -/
theorem isLayout_fill_eq_isGap (c : Char) :
    isLayout (if c = placeholder then space else c) = isGap c := by
  rw [isLayout_fill, isGap_eq_not_isSolid]

theorem mem_fillChars {c : Char} {cs : List Char} :
    c ∈ fillChars cs ↔ ∃ d ∈ cs, (if d = placeholder then space else d) = c :=
  List.mem_map

/-- A text has the pieces it had before its placeholders were filled. -/
theorem Pieces.fillChars {cs : List Char} {ps : List (List Char)} (h : Pieces isGap cs ps) :
    Pieces isLayout (fillChars cs) (ps.map Layout.fillChars) where
  flatten := by
    rw [← h.flatten]
    exact List.map_flatten.symm
  nonempty := by
    intro hnil
    obtain ⟨q, hq, he⟩ := List.mem_map.1 hnil
    exact h.nonempty (List.map_eq_nil_iff.1 he ▸ hq)
  alike := by
    intro r hr
    obtain ⟨q, hq, rfl⟩ := List.mem_map.1 hr
    obtain ⟨b, hb⟩ := h.alike q hq
    refine ⟨b, fun c hc => ?_⟩
    obtain ⟨d, hd, rfl⟩ := mem_fillChars.1 hc
    rw [isLayout_fill_eq_isGap, hb d hd]
  maximal := by
    refine List.isChain_map_of_isChain _ (fun q r hmax c hc d hd => ?_) h.maximal
    obtain ⟨c, hc', rfl⟩ := mem_fillChars.1 hc
    obtain ⟨d, hd', rfl⟩ := mem_fillChars.1 hd
    rw [isLayout_fill_eq_isGap, isLayout_fill_eq_isGap]
    exact hmax c hc' d hd'

/-- The same is written for a run whether its placeholders are filled or not. -/
theorem writeRun_fillChars (q : List Char) : writeRun (fillChars q) = writeRun q := by
  rcases q with _ | ⟨c, _ | ⟨d, q⟩⟩
  · rfl
  · by_cases hc : c = placeholder
    · subst hc
      rfl
    · rw [fillChars, List.map_singleton, if_neg hc]
  · rfl

theorem writePiece_fillChars (q : List Char) :
    writePiece isLayout (fillChars q) = if q.all isGap then writeRun q else fillChars q := by
  have hall : (fillChars q).all isLayout = q.all isGap := by
    simp only [fillChars, List.all_map, Function.comp_def, isLayout_fill_eq_isGap]
  rw [writePiece, hall, writeRun_fillChars]

/-- What is written for a filled piece is written for the piece: there are no placeholders in a
stretch. -/
theorem writePiece_fillChars_of_alike {q : List Char} (h : ∃ b, ∀ c ∈ q, isGap c = b) :
    writePiece isLayout (fillChars q) = writePiece isGap q := by
  obtain ⟨b, hb⟩ := h
  rw [writePiece_fillChars, writePiece]
  split
  · rfl
  · cases b with
    | true => exact absurd (List.all_eq_true.2 hb) ‹_›
    | false =>
      refine fillChars_eq_self_iff.2 fun hp => ?_
      have hgap := hb _ hp
      rw [isGap_iff.2 (.inr rfl)] at hgap
      cases hgap

/-- **Filling and collapsing rewrite piece by piece**, where a piece is cut from the text as it
was before. -/
theorem collapse_fill_eq_flatMap {cs : List Char} {ps : List (List Char)} (h : Pieces isGap cs ps) :
    collapseChars (fillChars cs) = ps.flatMap (writePiece isGap) := by
  rw [collapseChars_eq_flatMap h.fillChars, List.flatMap_map]
  exact List.flatMap_congr fun q hq => writePiece_fillChars_of_alike (h.alike q hq)

/-! ### Searching and replacing -/

/-- A match: two or more layout characters. -/
def IsMatch (m : List Char) : Prop := 2 ≤ m.length ∧ ∀ c ∈ m, isLayout c = true

/-- `Replaced cs out`: to go through `cs` from left to right and to write a space for every match
gives `out`. -/
inductive Replaced : List Char → List Char → Prop where
  /-- At the end there is nothing more to do. -/
  | nil : Replaced [] []
  /-- Where no match begins, the next character is copied. -/
  | copy {c : Char} {cs out : List Char} : (∀ m, m <+: c :: cs → ¬ IsMatch m) → Replaced cs out →
      Replaced (c :: cs) (c :: out)
  /-- Where one begins, the longest is taken, and the search goes on behind it. -/
  | «match» {m rest out : List Char} : IsMatch m →
      (∀ m', m' <+: m ++ rest → IsMatch m' → m'.length ≤ m.length) → Replaced rest out →
      Replaced (m ++ rest) (space :: out)

theorem writeRun_of_isMatch {m : List Char} (h : IsMatch m) : writeRun m = [space] := by
  obtain ⟨hlen, -⟩ := h
  rcases m with _ | ⟨c, _ | ⟨d, m⟩⟩
  · rfl
  · exact absurd hlen (by simp)
  · rfl

/-- Behind the longest match content begins. -/
theorem isLayout_head?_of_longest {m rest : List Char} (h : IsMatch m)
    (hmax : ∀ m', m' <+: m ++ rest → IsMatch m' → m'.length ≤ m.length) :
    ∀ c ∈ rest.head?, isLayout c = false := by
  intro c hc
  rw [Bool.eq_false_iff]
  intro hlayout
  obtain ⟨rest, rfl⟩ : ∃ rest', rest = c :: rest' := List.head?_eq_some_iff.1 hc
  have hlonger : IsMatch (m ++ [c]) := by
    refine ⟨Nat.le_trans h.1 (by simp), fun d hd => ?_⟩
    rcases List.mem_append.1 hd with hd | hd
    · exact h.2 d hd
    · rw [List.mem_singleton.1 hd]
      exact hlayout
  have hle := hmax (m ++ [c]) ⟨rest, by simp⟩ hlonger
  rw [List.length_append, List.length_singleton] at hle
  omega

/-- A layout character where no match begins has content behind it. -/
theorem isLayout_head?_of_no_match {c : Char} {cs : List Char}
    (h : ∀ m, m <+: c :: cs → ¬ IsMatch m) (hc : isLayout c = true) :
    ∀ d ∈ cs.head?, isLayout d = false := by
  intro d hd
  rw [Bool.eq_false_iff]
  intro hlayout
  obtain ⟨cs, rfl⟩ : ∃ cs', cs = d :: cs' := List.head?_eq_some_iff.1 hd
  exact h [c, d] ⟨cs, rfl⟩ ⟨Nat.le_refl 2, by simp [hc, hlayout]⟩

/-- The search can go no other way than collapsing does. -/
theorem Replaced.eq_collapseChars {cs out : List Char} (h : Replaced cs out) :
    out = collapseChars cs := by
  induction h with
  | nil => rfl
  | @copy c cs out hno _ ih =>
    rw [ih]
    cases hc : isLayout c with
    | true =>
      have hrun : ∀ d ∈ [c], isLayout d = true := by simpa using hc
      have hhead := isLayout_head?_of_no_match hno hc
      have hcollapse := collapseChars_run_append hrun (List.cons_ne_nil c []) hhead
      rw [writeRun, if_pos hc] at hcollapse
      exact hcollapse.symm
    | false =>
      rw [collapseChars, collapseChars, collapseFrom_content hc]
      rfl
  | @«match» m rest out hm hmax _ ih =>
    have hne : m ≠ [] := by
      rintro rfl
      exact absurd hm.1 (by simp)
    rw [collapseChars_run_append hm.2 hne (isLayout_head?_of_longest hm hmax), writeRun_of_isMatch hm,
      ih]
    rfl

/-- A match that is followed by content is the longest where it begins. -/
theorem longest_of_isLayout_head? {m rest : List Char}
    (hrest : ∀ c ∈ rest.head?, isLayout c = false) {m' : List Char} (hpre : m' <+: m ++ rest)
    (hm' : IsMatch m') : m'.length ≤ m.length := by
  by_contra hlt
  obtain ⟨d, rest, rfl⟩ : ∃ d rest', rest = d :: rest' := by
    refine List.exists_cons_of_ne_nil ?_
    rintro rfl
    exact hlt (by simpa using hpre.length_le)
  have hsub : m ++ [d] <+: m' :=
    List.prefix_of_prefix_length_le ⟨rest, by simp⟩ hpre (by simp; omega)
  have hd := hm'.2 d (hsub.subset (by simp))
  rw [hrest d rfl] at hd
  cases hd

/-- The layout at the front of a text ends where content begins. -/
theorem exists_run_append (cs : List Char) :
    ∃ run rest, run ++ rest = cs ∧ (∀ c ∈ run, isLayout c = true) ∧
      ∀ c ∈ rest.head?, isLayout c = false := by
  refine ⟨cs.takeWhile isLayout, cs.dropWhile isLayout, List.takeWhile_append_dropWhile,
    fun c hc => List.all_eq_true.1 List.all_takeWhile c hc, fun c hc => ?_⟩
  have hnot := List.head?_dropWhile_not isLayout cs
  rw [Option.mem_def.1 hc] at hnot
  exact hnot

/-- The search always comes to its end. If there is a match, the longest one is all the layout at
the front. -/
theorem exists_replaced (cs : List Char) : ∃ out, Replaced cs out := by
  induction h : cs.length using Nat.strong_induction_on generalizing cs with
  | _ n ih =>
    cases cs with
    | nil => exact ⟨[], .nil⟩
    | cons c cs =>
      by_cases hm : ∃ m, m <+: c :: cs ∧ IsMatch m
      · obtain ⟨m, hpre, hmatch⟩ := hm
        obtain ⟨run, rest, happ, hrun, hrest⟩ := exists_run_append (c :: cs)
        rw [← happ] at hpre h ⊢
        have hlength := hmatch.1.trans (longest_of_isLayout_head? hrest hpre hmatch)
        rw [List.length_append] at h
        obtain ⟨out, hout⟩ := ih rest.length (by omega) rest rfl
        exact ⟨space :: out, .«match» ⟨hlength, hrun⟩
          (fun _ => longest_of_isLayout_head? hrest) hout⟩
      · obtain ⟨out, hout⟩ := ih cs.length (by rw [← h]; exact Nat.lt_succ_self _) cs rfl
        exact ⟨c :: out, .copy (fun m hpre hmatch => hm ⟨m, hpre, hmatch⟩) hout⟩

/-- **To collapse a text is to search it for matches and to replace them.** -/
theorem replaced_iff {cs out : List Char} : Replaced cs out ↔ out = collapseChars cs := by
  constructor
  · exact Replaced.eq_collapseChars
  · rintro rfl
    obtain ⟨out, hout⟩ := exists_replaced cs
    rwa [hout.eq_collapseChars] at hout

end Layout

namespace Trim

open Layout (isLayout isGap writePiece Pieces Replaced collapse)

/-- **Trimming a text in closed form**: a text goes exactly if all of it is layout. Otherwise it
is cut into runs of layout and placeholders and the stretches between them; the stretches are
copied, a single layout character is copied, and every other run becomes one space. Collapsing by
itself does the same with the runs of layout alone, which is to search for runs of two or more
layout characters and to replace them. -/
theorem text_in_closed_form (x : Text) (s : String) :
    (text? x = none ↔ ∀ c ∈ x.value.toList, isLayout c = true) ∧
    ((∃ c ∈ x.value.toList, isLayout c = false) → ∀ ps, Pieces isGap x.value.toList ps →
      text? x = some { x with value := String.ofList (ps.flatMap (writePiece isGap)) }) ∧
    (∀ ps, Pieces isLayout s.toList ps →
      collapse s = String.ofList (ps.flatMap (writePiece isLayout))) ∧
    (∀ p cs, ∃! ps, Pieces p cs ps) ∧
    ∀ out, Replaced s.toList out ↔ out = (collapse s).toList := by
  refine ⟨?_, fun ⟨c, hc, hcontent⟩ ps hps => ?_, fun ps hps => ?_, Layout.existsUnique_pieces,
    fun out => ?_⟩
  · rw [text?, Option.map_eq_none_iff, Layout.trim?_eq_none_iff, Layout.isBlank_iff]
  · have hblank : Layout.isBlank x.value = false := by
      rw [Bool.eq_false_iff]
      intro hb
      rw [Layout.isBlank_iff.1 hb c hc] at hcontent
      cases hcontent
    rw [text?, Layout.trim?, hblank, ← Layout.collapse_fill_eq_flatMap hps,
      ← Layout.toList_fillPlaceholders]
    rfl
  · rw [collapse, Layout.collapseChars_eq_flatMap hps]
  · rw [Layout.toList_collapse, Layout.replaced_iff]

end Trim

end TemplateMarkup
