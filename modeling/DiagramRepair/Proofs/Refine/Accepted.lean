import DiagramRepair.Proofs.Refine.Pieces
import DiagramRepair.Proofs.Validation

namespace DiagramRepair

open Registry Segment

variable {f : Text → Verdict} {document : Text} {asked : Asked} {s s' : Segment} {b : Block}
  {segments segments' : List Segment}

theorem Segment.Refined.eq_self [Nonces] (h : Refined (.ofFunction f) asked s s')
    (haccepts : ∀ b, s = .diagram b → (f b.content).accepts) : s' = s := by
  cases h with
  | text | accepted | unchanged => rfl
  | repaired hrejects =>
    have hf := haccepts _ rfl
    rw [Checker.ofFunction] at hrejects
    simp [hf] at hrejects

theorem Segment.RefinedAll.eq_self [Nonces] (h : RefinedAll (.ofFunction f) asked segments segments')
    (haccepts : ∀ b, .diagram b ∈ segments → (f b.content).accepts) : segments' = segments := by
  have hsame := h.forall₂ (Q := fun s s' ↦ s = s') fun asked s s' hs hrefined ↦
    (hrefined.eq_self fun b hb ↦ haccepts b (hb ▸ hs)).symm
  rw [List.forall₂_eq_eq_eq] at hsame
  exact hsame.symm

theorem split_refineBaseline [Nonces] (hdocument : tokenOpen ∉ document) :
    split (refineBaseline document) =
      (split (closeBlocks (hideTableRows document).1)).map
        (Segment.restore (hideTableRows document).2) := by
  have hT := (rowTokens_rows document).tokenLike
  have ht := tokensAlone_closeBlocks hT (tokensAlone_rows hdocument)
  exact split_restore (apart_rows document) (fun p hp ↦ (of_mem_rows hp).2.1)
    (known_of_issued (ht.intact hT)) fun l hl ↦ fenceKept_rows (ht l hl)

/-- A block in which no line is restored to a row is the same with its rows hidden. -/
theorem content_restore [Nonces] (hdocument : tokenOpen ∉ document)
    (hb : .diagram b ∈ split (closeBlocks (hideTableRows document).1))
    (hrows : ∀ l ∈ (b.restore (hideTableRows document).2).inner, isTableSeparator l = false) :
    (b.restore (hideTableRows document).2).content = b.content := by
  have hT := (rowTokens_rows document).tokenLike
  have ht := tokensAlone_closeBlocks hT (tokensAlone_rows hdocument)
  have hlines : ∀ l ∈ b.inner, (hideTableRows document).2.restore l = l := by
    intro l hl
    have hl' : l ∈ Text.lines (closeBlocks (hideTableRows document).1) :=
      mem_lines_of_mem_split hb (by simp [Segment.lines, Block.lines, hl])
    rcases ht l hl' with hno | ⟨n, hn, rfl⟩
    · exact restore_of_not_mem hno
    · have hrow := (of_mem_rows (Array.getElem_mem hn)).1
      have hno := hrows _ (List.mem_map_of_mem hl)
      rw [restore_token hn, hrow] at hno
      cases hno
  have hinner : b.inner.map (hideTableRows document).2.restore = b.inner :=
    (List.map_congr_left hlines).trans (List.map_id b.inner)
  rw [Block.content, Block.restore, hinner, Block.content]

theorem run_refine [Nonces] (c : Checker) (document : Text) (asked : Asked) :
    ((refine (some c) document true).run asked).1 = (hideTableRows document).2.restore (renderAll
      ((refineSegments c (split (closeBlocks (hideTableRows document).1))).run asked).1) := by
  rw [refine]
  generalize hideTableRows document = hidden
  rfl

/-- Where the fences of the baseline are read in the same way and no block holds a table row, the
deep pass gives back a baseline without invalid blocks. -/
theorem refine_eq_refineBaseline [Nonces] (hdocument : tokenOpen ∉ document)
    (hcounted : ∀ s ∈ split (refineBaseline document), s.Counted)
    (hrows : ∀ b ∈ blocks (refineBaseline document), ∀ l ∈ b.inner, isTableSeparator l = false)
    (hcount : (((Checker.ofFunction f).countInvalid (refineBaseline document)).run asked).1 = 0)
    (asked' : Asked) :
    ((refine (some (.ofFunction f)) document true).run asked').1 = refineBaseline document := by
  have hT := rowTokens_rows document
  have ht := tokensAlone_closeBlocks hT.tokenLike (tokensAlone_rows hdocument)
  have haccepts : ∀ b, .diagram b ∈ split (closeBlocks (hideTableRows document).1) →
      (f b.content).accepts := by
    intro b hb
    have hblock : b.restore (hideTableRows document).2 ∈ blocks (refineBaseline document) := by
      rw [blocks, split_refineBaseline hdocument, List.mem_filterMap]
      exact ⟨_, List.mem_map_of_mem hb, rfl⟩
    have hclosed : (b.restore (hideTableRows document).2).isClosed := by
      simpa [Block.isClosed, Block.restore] using isClosed_of_mem_split_closeBlocks hb
    have hmem := mem_closedBlocks hcounted hblock hclosed
    rw [content_restore hdocument hb (hrows _ hblock)] at hmem
    rw [run_countInvalid, List.countP_eq_zero] at hcount
    simpa using hcount _ hmem
  obtain ⟨segments, hrun, hrefined, -⟩ := exists_refineSegments hT ht (.ofFunction f) asked'
  rw [run_refine, hrun, hrefined.eq_self haccepts, renderAll_split, refineBaseline]

section

attribute [local instance] Nonces.zeros

theorem refine_eq_refineBaseline_accepted :
    let document := Text.of "| - |\n~~~mermaid\nB\n~~~\n```mermaid\nA --> B\n```"
    let f : Text → Verdict := fun t ↦ .ok (t != Text.of "BROKEN")
    tokenOpen ∉ document ∧
    (∀ s ∈ split (refineBaseline document), s.Counted) ∧
    (∀ b ∈ blocks (refineBaseline document), ∀ l ∈ b.inner, isTableSeparator l = false) ∧
    (((Checker.ofFunction f).countInvalid (refineBaseline document)).run []).1 = 0 ∧
    ((refine (some (.ofFunction f)) document true).run []).1 = refineBaseline document := by
  intro document f
  have hdocument : tokenOpen ∉ document := by decide
  have hcounted : ∀ s ∈ split (refineBaseline document), s.Counted := by decide +kernel
  have hrows : ∀ b ∈ blocks (refineBaseline document), ∀ l ∈ b.inner,
    isTableSeparator l = false := by decide +kernel
  have hcount : (((Checker.ofFunction f).countInvalid (refineBaseline document)).run []).1 = 0 := by
    decide +kernel
  exact ⟨hdocument, hcounted, hrows, hcount,
    refine_eq_refineBaseline hdocument hcounted hrows hcount []⟩

end

section

attribute [local instance] Nonces.zeros

/-- The block after an empty one is rejected and repaired, but not counted. -/
theorem refine_ne_refineBaseline_after_empty_block :
    let document := Text.of "```mermaid\n```\n```mermaid\nA <-- B\n```"
    let c : Checker := .ofFunction fun t ↦ .ok (!Text.includes (Text.of "<--") t)
    tokenOpen ∉ document ∧ ((c.countInvalid (refineBaseline document)).run []).1 = 0 ∧
    ((refine (some c) document true).run []).1 ≠ refineBaseline document := by
  decide +kernel

end

end DiagramRepair
