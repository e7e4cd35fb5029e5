import DiagramRepair.Proofs.Refine.Kept

namespace DiagramRepair

open Registry Segment

variable {r : Registry} {T : Text → Prop} {s s' : Segment} {b : Block} {t u l : Text}
  {ls : List Text}

def Block.restore (r : Registry) (b : Block) : Block where
  opening := r.restore b.opening
  inner := b.inner.map r.restore
  closing := b.closing.map r.restore

namespace Segment

def restore (r : Registry) : Segment → Segment
  | text t => text (r.restore t)
  | diagram b => diagram (b.restore r)

def Reading.restore (r : Registry) : Reading → Reading
  | plain ls => plain (ls.map r.restore)
  | diagram opening inner => diagram (r.restore opening) (inner.map r.restore)

end Segment

/-- Restoring the line does not make it a fence, nor is a fence lost. -/
def FenceKept (r : Registry) (l : Text) : Prop :=
  Fence.isOpening (r.restore l) = Fence.isOpening l ∧
    Fence.isClosing (r.restore l) = Fence.isClosing l

section

variable (hr : r.Apart T)

include hr

theorem ofPlain_restore (hls : ∀ l ∈ ls, Intact (r.Known T) l) :
    ofPlain (ls.map r.restore) = (ofPlain ls).map (Segment.restore r) := by
  cases ls with
  | nil => rfl
  | cons l ls =>
    have hrestore := restore_unlines hr hls
    simp [ofPlain, Segment.restore, hrestore]

/-- Where restoring keeps the fences, the restored lines are cut in the same places. -/
theorem ofLines_restore (state : Reading) (rest : List Text)
    (hls : ∀ l ∈ state.lines ++ rest, Intact (r.Known T) l) (hfences : ∀ l ∈ rest, FenceKept r l) :
    ofLines (state.restore r) (rest.map r.restore) =
      (ofLines state rest).map (Segment.restore r) := by
  induction rest generalizing state with
  | nil =>
    cases state with
    | plain ls => exact ofPlain_restore hr (by simpa [Reading.lines] using hls)
    | diagram opening inner => rfl
  | cons l rest ih =>
    obtain ⟨⟨hopening, hclosing⟩, hrest⟩ := List.forall_mem_cons.mp hfences
    cases state with
    | plain ls =>
      rw [Reading.restore, List.map_cons, ofLines, ofLines, hopening]
      have hplain : ∀ l ∈ ls, Intact (r.Known T) l := fun l hl ↦ hls l (by simp [Reading.lines, hl])
      split
      · have hstart := ih (.diagram l []) (fun l' hl' ↦ hls l' (List.mem_append_right _ hl')) hrest
        rw [List.map_append, ofPlain_restore hr hplain, ← hstart]
        rfl
      · rw [← ih (.plain (ls ++ [l])) (by simpa [Reading.lines] using hls) hrest]
        simp [Reading.restore]
    | diagram opening inner =>
      rw [Reading.restore, List.map_cons, ofLines, ofLines, hclosing]
      split
      · have hplain := ih (.plain []) (fun l' hl' ↦ hls l' (by simp_all [Reading.lines])) hrest
        rw [List.map_cons, ← hplain]
        rfl
      · rw [← ih (.diagram opening (inner ++ [l])) (by simpa [Reading.lines] using hls) hrest]
        simp [Reading.restore]

theorem split_restore (hpieces : ∀ p ∈ r.pieces, '\n' ∉ p) (ht : Intact (r.Known T) t)
    (hfences : ∀ l ∈ Text.lines t, FenceKept r l) :
    split (r.restore t) = (split t).map (Segment.restore r) := by
  have hls := (intact_iff_lines hr.tokenLike_known).mp ht
  rw [split, lines_restore hr hpieces ht]
  exact ofLines_restore hr (.plain []) (Text.lines t) hls hfences

theorem render_restore (hs : Intact (r.Known T) s.render) :
    (s.restore r).render = r.restore s.render := by
  cases s with
  | text t => rfl
  | diagram b =>
    have hls := (intact_unlines hr.tokenLike_known).mp hs
    have hlines : (b.restore r).lines = b.lines.map r.restore := by
      simp [Block.lines, Block.restore, Option.toList_map]
    rw [Segment.restore, render, render, Block.render, Block.render, hlines]
    exact (restore_unlines hr hls).symm

theorem withContent_restore (hpieces : ∀ p ∈ r.pieces, '\n' ∉ p ∧ p ≠ []) (hb : b.isClosed)
    (hu : Intact (r.Known T) u) :
    (b.withContent u).restore r = (b.restore r).withContent (r.restore u) := by
  have hinner : (if u.isEmpty then [] else Text.lines u).map r.restore =
      if (r.restore u).isEmpty then [] else Text.lines (r.restore u) := by
    by_cases hnil : u = []
    · simp [hnil, restore_nil]
    · have hne := restore_ne_nil hr (fun p hp ↦ (hpieces p hp).2) hu hnil
      simp [hnil, hne, lines_restore hr (fun p hp ↦ (hpieces p hp).1) hu]
  obtain ⟨l, hl⟩ := Option.isSome_iff_exists.mp hb
  simp only [Block.restore, Block.withContent, hinner, hl, Option.getD_some, Option.map_some]

end

/-- What the refined document has in place of a segment of the baseline, given the same segment
with its rows hidden and what was asked before. The checker and the repair see the hidden one. -/
inductive PieceOf [Nonces] (c : Checker) (rows : Registry) (asked : Asked) :
    (hidden s : Segment) → Text → Prop
  | text {t t' : Text} : PieceOf c rows asked (.text t) (.text t') t'
  | accepted {b b' : Block} (haccepts : (c.parse asked b.content).accepts) :
      PieceOf c rows asked (.diagram b) (.diagram b') b'.render
  | unchanged {b b' : Block} (hrejects : (c.parse asked b.content).accepts = false)
      (hrepair : repair b.content = .ok b.content) :
      PieceOf c rows asked (.diagram b) (.diagram b') b'.render
  | repaired {b b' : Block} {t : Text} (hrejects : (c.parse asked b.content).accepts = false)
      (hrepair : repair b.content = .ok t) (ht : t ≠ b.content)
      (hopening : (b'.withContent (rows.restore t)).opening = b'.opening)
      (hclosing : (b'.withContent (rows.restore t)).closing = b'.closing) :
      PieceOf c rows asked (.diagram b) (.diagram b') (b'.withContent (rows.restore t)).render

theorem Segment.RefinedAll.getElem? [Nonces] {c : Checker} {asked : Asked} {i : Nat}
    {segments segments' : List Segment} (h : RefinedAll c asked segments segments')
    (hs : segments[i]? = some s) (hs' : segments'[i]? = some s') :
    Refined c (asked ++ contents (segments.take i)) s s' := by
  induction h generalizing i with
  | nil => simp at hs
  | @cons asked s₀ s₀' segments segments' hrefined _ ih =>
    cases i with
    | zero =>
      obtain rfl : s₀ = s := by simpa using hs
      obtain rfl : s₀' = s' := by simpa using hs'
      simpa [contents] using hrefined
    | succ i =>
      have hrest := ih (by simpa using hs) (by simpa using hs')
      rwa [List.append_assoc, ← contents_cons] at hrest

variable {document : Text}

theorem fenceKept_rows [Nonces] (hl : tokenOpen ∉ l ∨ (hideTableRows document).2.Issued l) :
    FenceKept (hideTableRows document).2 l := by
  rcases hl with hl | ⟨n, hn, rfl⟩
  · rw [FenceKept, restore_of_not_mem hl]
    exact ⟨rfl, rfl⟩
  · obtain ⟨hopening, hclosing⟩ := isInner_token (tokenLike_rows document) ⟨n, hn, rfl⟩
    have hrow := (of_mem_rows (Array.getElem_mem hn)).1
    obtain ⟨hopening', hclosing'⟩ := isInner_of_not_mem (not_mem_of_isTableSeparator hrow).1
    rw [FenceKept, restore_token hn, hopening, hclosing]
    exact ⟨hopening', hclosing'⟩

theorem pieceOf_refined [Nonces] {c : Checker} {asked : Asked}
    (ht : TokensAlone (hideTableRows document).2.Issued t)
    (hclosed : ∀ b, .diagram b ∈ split t → b.isClosed) (hs : s ∈ split t)
    (h : Refined c asked s s') :
    PieceOf c (hideTableRows document).2 asked s (s.restore (hideTableRows document).2)
      ((hideTableRows document).2.restore s'.render) := by
  have hT := rowTokens_rows document
  have hintact := known_of_issued (refined_spared hT ht hs h).1
  rw [← render_restore (apart_rows document) hintact]
  cases h with
  | text => exact .text
  | accepted haccepts => exact .accepted haccepts
  | unchanged hrejects hrepair => exact .unchanged hrejects hrepair
  | repaired hrejects hrepair hne =>
    rename_i b u
    obtain ⟨u', hu', hu, -⟩ := exists_repair hT (tokensAlone_content ht hs)
    obtain rfl := Except.ok.inj (hrepair.symm.trans hu')
    have hpieces : ∀ p ∈ (hideTableRows document).2.pieces, '\n' ∉ p ∧ p ≠ [] := by
      intro p hp
      obtain ⟨hrow, hnewline, -⟩ := of_mem_rows hp
      exact ⟨hnewline, (not_mem_of_isTableSeparator hrow).2⟩
    have hcontent := withContent_restore (apart_rows document) hpieces (hclosed b hs)
      (known_of_issued hu)
    obtain ⟨l, hl⟩ := Option.isSome_iff_exists.mp (hclosed b hs)
    -- As the block is closed, no fence is supplied along with the new content.
    rw [Segment.restore, Segment.restore, hcontent]
    refine .repaired hrejects hrepair hne rfl ?_
    simp [Block.withContent, Block.restore, hl]

/-- The checker is asked once about every block of the baseline, in order, while the table rows are
hidden, and the refined document is put together from the pieces of all segments. -/
theorem pieces_refine [Nonces] (hdocument : tokenOpen ∉ document) (c : Checker) (asked : Asked) :
    let rows := (hideTableRows document).2
    let hidden := split (closeBlocks (hideTableRows document).1)
    let segments := split (refineBaseline document)
    segments = hidden.map (Segment.restore rows) ∧
    ∃ pieces, (refine (some c) document true).run asked =
        (Text.unlines pieces, asked ++ contents hidden) ∧
      pieces.length = segments.length ∧
      ∀ i h s p, hidden[i]? = some h → segments[i]? = some s → pieces[i]? = some p →
        PieceOf c rows (asked ++ contents (hidden.take i)) h s p := by
  intro rows hidden segments
  have hT : RowTokens rows.Issued := rowTokens_rows document
  have hrows : rows.Apart fun _ ↦ False := apart_rows document
  have ht := tokensAlone_closeBlocks hT.tokenLike (tokensAlone_rows hdocument)
  have hsegments : segments = hidden.map (Segment.restore rows) :=
    split_restore hrows (fun p hp ↦ (of_mem_rows hp).2.1)
      (known_of_issued (ht.intact hT.tokenLike)) fun l hl ↦ fenceKept_rows (ht l hl)
  obtain ⟨refined, hrun, hrefined, hintact, -⟩ := exists_refineSegments hT ht c asked
  have hlength := (hrefined.forall₂ fun _ _ _ _ _ ↦ trivial).length_eq
  refine ⟨hsegments, refined.map fun s ↦ rows.restore s.render, ?_, ?_, ?_⟩
  · have hls := (intact_unlines hrows.tokenLike_known).mp (known_of_issued hintact)
    have hrestore := restore_unlines hrows hls
    rw [refine, StateT.run_bind, hrun]
    change (rows.restore (Text.unlines (refined.map render)), asked ++ contents hidden) = _
    rw [hrestore, List.map_map]
    rfl
  · simp [hsegments, hidden, hlength]
  · intro i h s p hh hs hp
    rw [hsegments, List.getElem?_map, hh] at hs
    obtain rfl := Option.some.inj hs
    rw [List.getElem?_map, Option.map_eq_some_iff] at hp
    obtain ⟨s', hs', rfl⟩ := hp
    refine pieceOf_refined ht (fun b hb ↦ ?_) (List.mem_of_getElem? hh)
      (hrefined.getElem? hh hs')
    exact isClosed_of_mem_split_closeBlocks hb

section

attribute [local instance] Nonces.zeros

theorem pieces_refine_row :
    let document := Text.of "x\n```mermaid\n| - |\n```"
    let hidden := split (closeBlocks (hideTableRows document).1)
    tokenOpen ∉ document ∧
    ∃ pieces, (refine (some (.ofFunction fun _ ↦ .ok false)) document true).run [] =
        (Text.unlines pieces, contents hidden) ∧ pieces.length = hidden.length := by
  intro document hidden
  have hdocument : tokenOpen ∉ document := by decide
  obtain ⟨hsegments, pieces, hrun, hlength, -⟩ :=
    pieces_refine hdocument (.ofFunction fun _ ↦ .ok false) []
  rw [List.nil_append] at hrun
  rw [hsegments, List.length_map] at hlength
  exact ⟨hdocument, pieces, hrun, hlength⟩

end

end DiagramRepair
