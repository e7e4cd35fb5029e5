import DiagramRepair.Proofs.Block.Segment

namespace DiagramRepair

variable {b b' : Block} {c t : Text} {i : Nat} {segments : List Segment}

namespace Block

@[simp] theorem opening_withContent (b : Block) (c : Text) :
    (b.withContent c).opening = b.opening := rfl

@[simp] theorem isClosed_withContent (b : Block) (c : Text) : (b.withContent c).isClosed := rfl

@[simp] theorem content_withContent (b : Block) (c : Text) : (b.withContent c).content = c := by
  rw [content, withContent]
  split
  · rename_i hempty
    rw [List.isEmpty_iff.mp hempty]
    rfl
  · exact Text.unlines_lines c

end Block

namespace Segment

theorem Whole.withContent (hb : (diagram b).Whole)
    (hc : ∀ l ∈ Text.lines c, Fence.isClosing l = false) : (diagram (b.withContent c)).Whole := by
  refine ⟨fun l hl ↦ hc l (Block.mem_inner_withContent hl), ?_⟩
  rintro _ ⟨⟩
  cases hclosing : b.closing with
  | none => decide
  | some l => exact hb.2 l hclosing

theorem Cut.not_adjacent (hcut : Cut segments) (u v : Text) :
    ¬ [text u, text v] <:+: segments := by
  induction hcut with
  | nil => simp
  | plain => simp [List.infix_cons_iff]
  | unclosed => simp [List.infix_cons_iff]
  | closed _ _ _ ih => simpa [List.infix_cons_iff] using ih
  | between _ _ ih => simpa [List.infix_cons_iff] using ih

theorem Cut.isClosed_of_mem_dropLast (hcut : Cut segments) (hb : diagram b ∈ segments.dropLast) :
    b.isClosed := by
  induction hcut with
  | nil => cases hb
  | plain => cases hb
  | unclosed => cases hb
  | @closed b' segments _ hclosed _ ih =>
    cases segments with
    | nil => cases hb
    | cons s segments =>
      rw [List.dropLast_cons_cons, List.mem_cons] at hb
      rcases hb with hb | hb
      · rwa [Segment.diagram.inj hb]
      · exact ih hb
  | between _ _ ih =>
    rw [List.dropLast_cons_cons, List.mem_cons] at hb
    exact ih (hb.resolve_left Segment.noConfusion)

/-- A block that is closed can stand wherever one with the same opening fence stands. -/
theorem Cut.set (hcut : Cut segments) (hb : segments[i]? = some (diagram b))
    (hopening : b'.opening = b.opening) (hclosed : b'.isClosed) :
    Cut (segments.set i (diagram b')) := by
  induction hcut generalizing i with
  | nil => cases hb
  | plain => cases i <;> cases hb
  | unclosed hfence =>
    cases i with
    | zero =>
      cases hb
      exact .closed (hopening ▸ hfence) hclosed .nil
    | succ i => cases hb
  | closed hfence hclosed' hrest ih =>
    cases i with
    | zero =>
      cases hb
      exact .closed (hopening ▸ hfence) hclosed hrest
    | succ i => exact .closed hfence hclosed' (ih hb)
  | between t hblock ih =>
    cases i with
    | zero => cases hb
    | succ i =>
      have hset := ih hb
      -- The block after the text is the one that is replaced, or it stays.
      cases i with
      | zero => exact .between t hset
      | succ i => exact .between t hset

/-- A block is open exactly where its last line, the opening fence apart, is no closing fence. -/
theorem isClosed_iff_of_mem_split (hb : diagram b ∈ split t) :
    b.isClosed ↔ 2 ≤ b.lines.length ∧ ∃ l ∈ b.lines.getLast?, Fence.isClosing l := by
  obtain ⟨hinner, hclosing⟩ := whole_of_mem_split hb
  obtain ⟨opening, inner, closing⟩ := b
  cases closing with
  | none =>
    rcases List.eq_nil_or_concat inner with rfl | ⟨inner, l, rfl⟩
    · simp [Block.isClosed, Block.lines]
    · rw [List.concat_eq_append] at hinner ⊢
      have hlast : (Block.lines ⟨opening, inner ++ [l], none⟩).getLast? = some l := by
        rw [Block.lines, Option.toList_none, List.append_nil, ← List.cons_append,
          List.getLast?_concat]
      have hl : Fence.isClosing l = false := hinner l (by simp)
      simp [Block.isClosed, hlast, hl]
  | some l =>
    have hlast : (Block.lines ⟨opening, inner, some l⟩).getLast? = some l := List.getLast?_concat
    have hlength : 2 ≤ (Block.lines ⟨opening, inner, some l⟩).length := by simp [Block.lines]
    simp [Block.isClosed, hlast, hlength, hclosing l rfl]

/-- The segments of a document render to the document; no two texts stand side by side, no text
holds an opening fence, and every block but one at the end is closed. -/
theorem split_spec (t : Text) :
    renderAll (split t) = t ∧ (∀ u v, ¬ [text u, text v] <:+: split t) ∧
    (∀ u, text u ∈ split t → ∀ l ∈ Text.lines u, Fence.isOpening l = false) ∧
    ∀ b, diagram b ∈ (split t).dropLast → b.isClosed := by
  refine ⟨renderAll_split t, (cut_split t).not_adjacent, fun u hu ↦ ?_, fun b hb ↦ ?_⟩
  · exact whole_of_mem_split hu
  · exact (cut_split t).isClosed_of_mem_dropLast hb

/-- A document in which one block got new content without a closing fence is cut as it was, but for
that block, which is closed and has the new content. -/
theorem split_renderAll_set (hb : (split t)[i]? = some (diagram b))
    (hc : ∀ l ∈ Text.lines c, Fence.isClosing l = false) :
    split (renderAll ((split t).set i (diagram (b.withContent c)))) =
      (split t).set i (diagram (b.withContent c)) ∧
    (b.withContent c).isClosed ∧ (b.withContent c).opening = b.opening ∧
    (b.withContent c).content = c := by
  have hmem : diagram b ∈ split t := List.mem_of_getElem? hb
  have hlines : ∀ s ∈ split t, ∀ l ∈ s.lines, '\n' ∉ l := fun s hs l hl ↦
    Text.newline_not_mem_of_mem_lines (mem_lines_of_mem_split hs hl)
  refine ⟨split_renderAll ?_ ((cut_split t).set hb rfl rfl) ?_ ?_, rfl, rfl,
    b.content_withContent c⟩
  · simpa using split_ne_nil t
  · intro s hs
    rcases List.mem_or_eq_of_mem_set hs with hs | rfl
    · exact whole_of_mem_split hs
    · exact (whole_of_mem_split hmem).withContent hc
  · intro s hs
    rcases List.mem_or_eq_of_mem_set hs with hs | rfl
    · exact hlines s hs
    · exact Block.forall_mem_withContent (hlines _ hmem)
        (fun _ hl ↦ Text.newline_not_mem_of_mem_lines hl) (by decide)

/-- A block that was left open, with an opening fence for content. -/
theorem split_renderAll_set_open :
    let t := Text.of "a\n```mermaid\nA --> B"
    let b : Block := ⟨Text.of "```mermaid", [Text.of "A --> B"], none⟩
    let c := Text.of "```mermaid\n"
    ((split t)[1]? = some (diagram b) ∧ ∀ l ∈ Text.lines c, Fence.isClosing l = false) ∧
    split (renderAll ((split t).set 1 (diagram (b.withContent c)))) =
      (split t).set 1 (diagram (b.withContent c)) ∧
    (b.withContent c).isClosed ∧ (b.withContent c).opening = b.opening ∧
    (b.withContent c).content = c := by
  intro t b c
  have hb : (split t)[1]? = some (diagram b) := by decide +kernel
  have hc : ∀ l ∈ Text.lines c, Fence.isClosing l = false := by decide +kernel
  exact ⟨⟨hb, hc⟩, split_renderAll_set hb hc⟩

end Segment

end DiagramRepair
