import TemplateMarkup.Proofs.Source.Spans

/-!
# Spans tile a file

A span is two byte counts, and nothing keeps them from lying inside a character, past the end of
the file or in the wrong order. Its text is then empty, and otherwise it is what the two counts
mark off, byte for byte. So spans that meet at a boundary cover together what the span over both of
them covers, and a location and a place some characters from it mark off these characters.

## The model

`MarksOff content start stop` says that two byte counts are boundaries of the content and in order.
The text is compared with the bytes of the content in UTF-8, which is another reading of it than
the list of characters that the text is cut out of.

## What is proved

* `marksOff_iff` — two counts mark off a part exactly if the content can be cut around it.
* `Span.toUTF8_text` and `Span.text_of_not_marksOff` — what the text of any span is.
* `Span.text_on` and `Span.text_back` — the text between a location and a move from it.
* `spans_tile` — the text of a span, of two spans that meet, and of a move in either direction.
-/

namespace TemplateMarkup

namespace Source

/-! ### Bytes -/

theorem size_utf8Encode (cs : List Char) : cs.utf8Encode.size = byteLength cs := by
  have hsize := byteLength_toList (String.ofList cs)
  rw [String.toList_ofList, ← String.size_toByteArray, String.toByteArray_ofList] at hsize
  exact hsize.symm

/-- The bytes of a part of a text are those between the byte counts around it. -/
theorem extract_utf8Encode (before part after : List Char) :
    (before ++ part ++ after).utf8Encode.extract (byteLength before) (byteLength (before ++ part)) =
      part.utf8Encode := by
  have hsize := size_utf8Encode (before ++ part)
  rw [List.utf8Encode_append, ByteArray.extract_append, hsize, Nat.sub_self, byteLength_append,
    Nat.sub_eq_zero_of_le (Nat.le_add_right _ _), List.utf8Encode_append,
    ByteArray.extract_append_eq_right (size_utf8Encode before).symm (by
      rw [size_utf8Encode, size_utf8Encode])]
  simp

/-! ### What two byte counts mark off -/

/-- **The counts mark off a part of the content**: they are boundaries of it, and the second does
not come before the first. -/
structure MarksOff (content : List Char) (start stop : Nat) : Prop where
  /-- They do not come in the wrong order. -/
  ordered : start ≤ stop
  /-- They do not lie past the end. -/
  inside : stop ≤ byteLength content
  /-- The part starts at a boundary. -/
  start : IsBoundary content start
  /-- It ends at a boundary. -/
  stop : IsBoundary content stop

theorem IsBoundary.le {content : List Char} {n : Nat} (h : IsBoundary content n) :
    n ≤ byteLength content := by
  obtain ⟨before, after, rfl, rfl⟩ := h
  rw [byteLength_append]
  exact Nat.le_add_right _ _

/-- Characters that take no bytes are none. -/
theorem eq_nil_of_byteLength {cs : List Char} (h : byteLength cs = 0) : cs = [] := by
  have hlength := length_le_byteLength cs
  exact List.eq_nil_of_length_eq_zero (by omega)

/-- Two counts mark off a part exactly if the content can be cut around it. -/
theorem marksOff_iff {content : List Char} {start stop : Nat} :
    MarksOff content start stop ↔ ∃ before part after, content = before ++ part ++ after ∧
      start = byteLength before ∧ stop = byteLength (before ++ part) := by
  constructor
  · rintro ⟨hordered, -, ⟨before, rest, rfl, rfl⟩, ⟨first, after, hcut, rfl⟩⟩
    obtain ⟨part, rfl, rfl⟩ | ⟨part, rfl, rfl⟩ := List.append_eq_append_iff.1 hcut
    · exact ⟨before, part, after, (List.append_assoc ..).symm, rfl, rfl⟩
    · rw [byteLength_append] at hordered
      obtain rfl : part = [] := eq_nil_of_byteLength (by omega)
      exact ⟨first, [], rest, by simp, by simp, by simp⟩
  · rintro ⟨before, part, after, rfl, rfl, rfl⟩
    have hstop : IsBoundary (before ++ part ++ after) (byteLength (before ++ part)) :=
      ⟨before ++ part, after, rfl, rfl⟩
    refine ⟨?_, hstop.le, ⟨before, part ++ after, List.append_assoc .., rfl⟩, hstop⟩
    rw [byteLength_append]
    exact Nat.le_add_right _ _

namespace Span

/-- A part is cut out only if it is marked off. -/
theorem marksOff_of_slice? {content part : List Char} {start stop : Nat}
    (h : slice? content start stop = some part) : MarksOff content start stop := by
  unfold slice? at h
  split_ifs at h with hordered
  simp only [bind, Option.bind_eq_some_iff, Prod.exists] at h
  obtain ⟨before, rest, hbefore, part', after, hpart, -⟩ := h
  obtain ⟨rfl, rfl⟩ := splitBytes?_eq_some hbefore
  obtain ⟨rfl, hlength⟩ := splitBytes?_eq_some hpart
  refine marksOff_iff.2 ⟨before, part', after, (List.append_assoc ..).symm, rfl, ?_⟩
  rw [byteLength_append]
  omega

/-- **Where the offsets mark off a part, the text is its bytes.** -/
theorem toUTF8_text {s : Span}
    (h : MarksOff s.start.file.content.toList s.start.offset s.stop.offset) :
    s.text.toUTF8 = s.start.file.content.toUTF8.extract s.start.offset s.stop.offset := by
  obtain ⟨before, part, after, hcontent, hstart, hstop⟩ := marksOff_iff.1 h
  have hbytes : s.start.file.content.toUTF8 = (before ++ part ++ after).utf8Encode := by
    rw [String.toUTF8, ← String.ofList_toList (s := s.start.file.content), hcontent,
      String.toByteArray_ofList]
  rw [text_of_cut hcontent hstart hstop, hbytes, hstart, hstop, extract_utf8Encode, String.toUTF8,
    String.toByteArray_ofList]

/-- **Where they do not, it is empty.** -/
theorem text_of_not_marksOff {s : Span}
    (h : ¬ MarksOff s.start.file.content.toList s.start.offset s.stop.offset) : s.text = "" := by
  rw [text]
  cases hslice : slice? s.start.file.content.toList s.start.offset s.stop.offset with
  | none => rfl
  | some part => exact absurd (marksOff_of_slice? hslice) h

/-! ### Spans that meet -/

/-- Two spans that meet cover what the span over both of them covers: the bytes of the two texts are
those of the one. -/
theorem text_append_text {l m r : Location} (hfile : m.file = l.file)
    (hlm : MarksOff l.file.content.toList l.offset m.offset)
    (hmr : MarksOff l.file.content.toList m.offset r.offset) (d d' d'' : Option String) :
    (Span.mk l m d).text ++ (Span.mk m r d').text = (Span.mk l r d'').text := by
  have hlr : MarksOff l.file.content.toList l.offset r.offset :=
    ⟨hlm.ordered.trans hmr.ordered, hmr.inside, hlm.start, hmr.stop⟩
  have hbytes := toUTF8_text (s := ⟨l, m, d⟩) hlm
  have hbytes' := toUTF8_text (s := ⟨m, r, d'⟩) (hfile ▸ hmr)
  have hbytes'' := toUTF8_text (s := ⟨l, r, d''⟩) hlr
  rw [hfile] at hbytes'
  refine String.toByteArray_inj.1 ?_
  rw [String.toByteArray_append]
  calc _ = l.file.content.toUTF8.extract l.offset m.offset ++
        l.file.content.toUTF8.extract m.offset r.offset := congrArg₂ _ hbytes hbytes'
    _ = l.file.content.toUTF8.extract l.offset r.offset := by
      rw [ByteArray.extract_append_extract, min_eq_left hlm.ordered, max_eq_right hmr.ordered]
    _ = _ := hbytes''.symm

/-! ### Moves from a location -/

/-- Between a location and `n` characters on stand the first `n` characters after it. -/
theorem text_on {l : Location} {before after : List Char}
    (hcontent : l.file.content.toList = before ++ after) (hoffset : l.offset = byteLength before)
    (n : Nat) (d : Option String) :
    (Span.mk l (l.moveBy n) d).text = String.ofList (after.take n) := by
  have hat : l.At ⟨before.reverse, after⟩ := .of_cut hcontent hoffset
  have hmoved := l.at_moveBy n
  rw [hat.cursor_eq] at hmoved
  exact text_of_at (by rwa [List.take_append_drop]) hmoved

/-- Between `n` characters back and a location stand the last `n` characters before it. -/
theorem text_back {l : Location} {before after : List Char}
    (hcontent : l.file.content.toList = before ++ after) (hoffset : l.offset = byteLength before)
    (n : Nat) (d : Option String) :
    (Span.mk (l.moveBy (-n)) l d).text = String.ofList (before.reverse.take n).reverse := by
  have hat : l.At ⟨before.reverse, after⟩ := .of_cut hcontent hoffset
  have hmoved := l.at_moveBy (-n)
  rw [hat.cursor_eq, Cursor.moveBy_neg, Cursor.retreat] at hmoved
  refine @text_of_at _ (before.reverse.drop n).reverse _ after ?_ ?_
  · rwa [List.reverse_reverse]
  · rwa [List.reverse_reverse, List.reverse_reverse, List.take_append_drop]

end Span

/-- **Spans tile a file.** The text of any span is the bytes between its offsets, if both are
boundaries of the content and in order, and is empty otherwise. Two spans that meet at a boundary
cover what the span over both of them covers. From a location at a boundary to `n` characters on
stand the first `n` characters behind it, or all that are left, and from `n` characters back to the
location the last `n` before it, or all that there are. -/
theorem spans_tile :
    (∀ s : Span,
      (MarksOff s.start.file.content.toList s.start.offset s.stop.offset →
        s.text.toUTF8 = s.start.file.content.toUTF8.extract s.start.offset s.stop.offset) ∧
      (¬ MarksOff s.start.file.content.toList s.start.offset s.stop.offset → s.text = "")) ∧
    (∀ l m r : Location, m.file = l.file → l.offset ≤ m.offset → m.offset ≤ r.offset →
      (∀ p ∈ [l, m, r], IsBoundary l.file.content.toList p.offset) → ∀ d d' d'' : Option String,
      (Span.mk l m d).text ++ (Span.mk m r d').text = (Span.mk l r d'').text) ∧
    ∀ (l : Location) (before after : List Char), l.file.content.toList = before ++ after →
      l.offset = byteLength before → ∀ (n : Nat) (d : Option String),
      ((Span.mk l (l.moveBy n) d).text.toList <+: after ∧
        (Span.mk l (l.moveBy n) d).text.length = min n after.length) ∧
      ((Span.mk (l.moveBy (-n)) l d).text.toList <:+ before ∧
        (Span.mk (l.moveBy (-n)) l d).text.length = min n before.length) := by
  refine ⟨fun s => ⟨Span.toUTF8_text, Span.text_of_not_marksOff⟩, ?_, ?_⟩
  · intro l m r hfile hlm hmr hboundary
    simp only [List.forall_mem_cons, List.not_mem_nil, false_implies, implies_true, and_true]
      at hboundary
    obtain ⟨hl, hm, hr⟩ := hboundary
    exact Span.text_append_text hfile ⟨hlm, hm.le, hl, hm⟩ ⟨hmr, hr.le, hm, hr⟩
  · intro l before after hcontent hoffset n d
    rw [Span.text_on hcontent hoffset, Span.text_back hcontent hoffset, String.toList_ofList,
      String.toList_ofList, String.length_ofList, String.length_ofList, List.length_take,
      List.length_reverse, List.length_take, List.length_reverse]
    refine ⟨⟨List.take_prefix n after, rfl⟩, ⟨?_, rfl⟩⟩
    rw [← List.reverse_prefix, List.reverse_reverse]
    exact List.take_prefix n before.reverse

/-- In a file of two lines: over a character of two bytes and one of three, from inside a
character, and from the start of the second line further back than there is room for. -/
theorem spans_tile_two_lines :
    let loc (offset : Nat) : Location := ⟨⟨"é\n€x", ""⟩, offset, 0, 0⟩
    (Span.mk (loc 0) (loc 3) none).text ++ (Span.mk (loc 3) (loc 6) none).text =
        (Span.mk (loc 0) (loc 6) none).text ∧
      (Span.mk (loc 4) (loc 6) none).text = "" ∧
      (Span.mk (loc 0) (loc 6) none).text.toUTF8 = "é\n€x".toUTF8.extract 0 6 ∧
      (Span.mk (loc 3) ((loc 3).moveBy 1) none).text.length = 1 ∧
      (Span.mk ((loc 3).moveBy (-9)) (loc 3) none).text.length = 2 := by
  intro loc
  obtain ⟨htext, hmeet, hmoved⟩ := spans_tile
  have hinside : ¬ IsBoundary "é\n€x".toList 4 := by decide
  have hwhole : MarksOff "é\n€x".toList 0 6 := ⟨by decide, by decide, by decide, by decide⟩
  have hplace := hmoved (loc 3) ['é', '\n'] ['€', 'x'] (by decide) (by decide)
  refine ⟨hmeet (loc 0) (loc 3) (loc 6) rfl (by decide) (by decide) (by decide) none none none, ?_,
    (htext ⟨loc 0, loc 6, none⟩).1 hwhole, (hplace 1 none).1.2, (hplace 9 none).2.2⟩
  exact (htext ⟨loc 4, loc 6, none⟩).2 fun h => hinside h.start

end Source

end TemplateMarkup
