import DiagramRepair.Block.Closing
import DiagramRepair.Block.Segment
import DiagramRepair.Proofs.Block.Segment
import DiagramRepair.Proofs.Line.Normal
import Mathlib.Data.List.Forall2

namespace DiagramRepair

variable {normalize : Text → Text} {b : OpenBlock} {block? : Option OpenBlock} {l : Text}
  {ls rest : List Text}

def IsInner (l : Text) : Prop := Fence.isOpening l = false ∧ Fence.isClosing l = false

theorem isInner_normalize (h : IsInner l) : IsInner (Line.normalize l) := by
  have hlead := (Line.normalizes_normalize l).sameLead.symm
  refine ⟨Bool.eq_false_iff.mpr fun hl ↦ ?_, Bool.eq_false_iff.mpr fun hl ↦ ?_⟩
  · simpa [h.1] using Fence.isOpening_of_sameLead hlead hl
  · simpa [h.2] using Fence.isClosing_of_sameLead hlead hl

/-- The open block begins with its opening fence and holds no other. -/
structure OpenBlock.Sound (b : OpenBlock) : Prop where
  opens : ∃ fence inner, b.upToArrow = fence :: inner ∧ Fence.isOpening fence ∧
    ∀ l ∈ inner, IsInner l
  since : ∀ l ∈ b.sinceArrow, IsInner l

theorem OpenBlock.sound_start (h : Fence.isOpening l) : (OpenBlock.start l).Sound :=
  ⟨⟨l, [], rfl, h, by simp⟩, by simp [start]⟩

theorem OpenBlock.Sound.add (hb : b.Sound) (hl : IsInner l) : (b.add l).Sound := by
  obtain ⟨⟨fence, inner, hup, hfence, hinner⟩, hsince⟩ := hb
  rw [OpenBlock.add]
  split
  · refine ⟨⟨fence, inner ++ b.sinceArrow ++ [l], by simp [lines, hup], hfence, ?_⟩, by simp⟩
    intro l' hl'
    simp only [List.mem_append, List.mem_singleton] at hl'
    rcases hl' with (hl' | hl') | rfl
    · exact hinner l' hl'
    · exact hsince l' hl'
    · exact hl
  · refine ⟨⟨fence, inner, hup, hfence, hinner⟩, fun l' hl' ↦ ?_⟩
    rcases List.mem_append.mp hl' with hl' | hl'
    · exact hsince l' hl'
    · rwa [List.mem_singleton.mp hl']

def Block.Tidy (b : Block) : Prop := b.isClosed ∧ ∀ l ∈ b.inner, IsInner l

def TidyBlocks (segments : List Segment) (n : Nat) : Prop :=
  (∀ b ∈ segments.filterMap Segment.block?, b.Tidy) ∧
    (segments.filterMap Segment.block?).length = n

theorem tidyBlocks_ofPlain (ls : List Text) : TidyBlocks (Segment.ofPlain ls) 0 := by
  rw [TidyBlocks, Segment.filterMap_block?_ofPlain]
  exact ⟨by simp, rfl⟩

theorem TidyBlocks.block {b : Block} {segments : List Segment} {n : Nat} (hb : b.Tidy)
    (h : TidyBlocks segments n) :
    TidyBlocks (Segment.ofPlain ls ++ .diagram b :: segments) (n + 1) := by
  rw [TidyBlocks, List.filterMap_append, Segment.filterMap_block?_ofPlain, List.nil_append,
    List.filterMap_cons_some (f := Segment.block?) (a := .diagram b) (b := b) rfl]
  exact ⟨List.forall_mem_cons.mpr ⟨hb, h.1⟩, by simp [h.2]⟩

theorem OpenBlock.Sound.forceClosed {n : Nat} (hb : b.Sound) (ls : List Text)
    (h : TidyBlocks (Segment.ofLines (.plain b.sinceArrow) rest) n) :
    TidyBlocks (Segment.ofLines (.plain ls) (b.forceClosed ++ rest)) (n + 1) := by
  obtain ⟨⟨fence, inner, hup, hfence, hinner⟩, hsince⟩ := hb
  have hlines : b.forceClosed ++ rest =
      fence :: (inner ++ Fence.closing :: (b.sinceArrow ++ rest)) := by
    simp [OpenBlock.forceClosed, hup]
  rw [hlines, Segment.ofLines_block hfence (fun l hl ↦ (hinner l hl).2) (by decide),
    Segment.ofLines_plain fun l hl ↦ (hsince l hl).1]
  exact h.block ⟨rfl, hinner⟩

theorem OpenBlock.Sound.closed {n : Nat} (hb : b.Sound) (ls : List Text) (hl : Fence.isClosing l)
    (h : TidyBlocks (Segment.ofLines (.plain []) rest) n) :
    TidyBlocks (Segment.ofLines (.plain ls) (b.lines ++ l :: rest)) (n + 1) := by
  obtain ⟨⟨fence, inner, hup, hfence, hinner⟩, hsince⟩ := hb
  have hlines : b.lines ++ l :: rest = fence :: (inner ++ b.sinceArrow ++ l :: rest) := by
    simp [OpenBlock.lines, hup]
  have hall : ∀ l ∈ inner ++ b.sinceArrow, IsInner l := by
    intro l hl
    rcases List.mem_append.mp hl with hl | hl
    · exact hinner l hl
    · exact hsince l hl
  rw [hlines, Segment.ofLines_block hfence (fun l hl ↦ (hall l hl).2) hl]
  exact h.block ⟨rfl, hall⟩

/-- Whatever block is open and whatever plain lines were read before, every opening fence that is
met gives a tidy block, and so does the block that is open. -/
theorem tidyBlocks_closeLines (hnormalize : ∀ l, IsInner l → IsInner (normalize l))
    (block? : Option OpenBlock) (hb : ∀ b ∈ block?, b.Sound) (ls rest : List Text) :
    TidyBlocks (Segment.ofLines (.plain ls) (closeLines normalize block? rest))
      (block?.toList.length + rest.countP Fence.isOpening) := by
  -- A block that is forced closed leaves its lines since the last arrow behind as plain ones, so
  -- the plain lines read before have to be arbitrary.
  induction rest generalizing block? ls with
  | nil =>
    cases block? with
    | none =>
      rw [closeLines, Segment.ofLines]
      exact tidyBlocks_ofPlain ls
    | some b =>
      have hsince : TidyBlocks (Segment.ofLines (.plain b.sinceArrow) []) 0 :=
        tidyBlocks_ofPlain b.sinceArrow
      simpa [closeLines] using (hb b rfl).forceClosed ls hsince
  | cons l rest ih =>
    by_cases hopening : Fence.isOpening l
    · have hstart := OpenBlock.sound_start (Fence.isOpening_normalizeOpening hopening)
      have hopened := ih (some (.start (Fence.normalizeOpening l))) (by simpa using hstart)
      rw [List.countP_cons_of_pos hopening]
      cases block? with
      | none =>
        rw [closeLines, if_pos hopening]
        simpa [Nat.add_comm] using hopened ls
      | some b =>
        rw [closeLines, if_pos hopening]
        simpa [Nat.add_comm] using (hb b rfl).forceClosed ls (hopened b.sinceArrow)
    · rw [List.countP_cons_of_neg hopening]
      cases block? with
      | none =>
        rw [closeLines, if_neg hopening, Segment.ofLines, if_neg hopening]
        exact ih none (by simp) _
      | some b =>
        rw [closeLines, if_neg hopening]
        by_cases hclosing : Fence.isClosing l
        · have hclosed := (hb b rfl).closed ls hclosing (ih none (by simp) [])
          simpa [hclosing, Nat.add_comm] using hclosed
        · have hinner : IsInner l := ⟨by simpa using hopening, by simpa using hclosing⟩
          have hadd := (hb b rfl).add (hnormalize l hinner)
          have hrest := ih (some (b.add (normalize l))) (by simpa using hadd) ls
          simpa [hclosing] using hrest

theorem OpenBlock.lines_add (b : OpenBlock) (l : Text) : (b.add l).lines = b.lines ++ [l] := by
  rw [add]
  split <;> simp [lines]

theorem OpenBlock.forall_mem_forceClosed {P : Text → Prop} (hclosing : P Fence.closing)
    (hb : ∀ l ∈ b.lines, P l) : ∀ l ∈ b.forceClosed, P l := by
  intro l hl
  simp only [forceClosed, List.mem_append, List.mem_cons] at hl
  rcases hl with hl | rfl | hl
  · exact hb l (List.mem_append_left _ hl)
  · exact hclosing
  · exact hb l (List.mem_append_right _ hl)

theorem forall_mem_closeLines {P : Text → Prop} (hclosing : P Fence.closing)
    (hopening : ∀ l, P l → Fence.isOpening l → P (Fence.normalizeOpening l))
    (hnormalize : ∀ l, P l → P (normalize l)) (block? : Option OpenBlock)
    (hb : ∀ b ∈ block?, ∀ l ∈ b.lines, P l) (hrest : ∀ l ∈ rest, P l) :
    ∀ l ∈ closeLines normalize block? rest, P l := by
  induction rest generalizing block? with
  | nil =>
    cases block? with
    | none => simp [closeLines]
    | some b => exact b.forall_mem_forceClosed hclosing (hb b rfl)
  | cons l rest ih =>
    rw [List.forall_mem_cons] at hrest
    by_cases hl : Fence.isOpening l
    · have hopened := ih (some (.start (Fence.normalizeOpening l)))
        (by simpa [OpenBlock.start, OpenBlock.lines] using hopening l hrest.1 hl) hrest.2
      cases block? with
      | none =>
        rw [closeLines, if_pos hl]
        exact hopened
      | some b =>
        rw [closeLines, if_pos hl]
        exact List.forall_mem_append.mpr ⟨b.forall_mem_forceClosed hclosing (hb b rfl), hopened⟩
    · cases block? with
      | none =>
        rw [closeLines, if_neg hl]
        exact List.forall_mem_cons.mpr ⟨hrest.1, ih none (by simp) hrest.2⟩
      | some b =>
        rw [closeLines, if_neg hl]
        by_cases hclosing : Fence.isClosing l
        · rw [if_pos hclosing]
          have htail := List.forall_mem_cons.mpr ⟨hrest.1, ih none (by simp) hrest.2⟩
          exact List.forall_mem_append.mpr ⟨hb b rfl, htail⟩
        · rw [if_neg hclosing]
          refine ih (some (b.add (normalize l))) (fun b' hb' ↦ ?_) hrest.2
          obtain rfl := Option.some.inj hb'
          rw [OpenBlock.lines_add, List.forall_mem_append]
          exact ⟨hb b rfl, by simpa using hnormalize l hrest.1⟩

/-- What a line of the document is in the closed one. -/
def KeptLine (normalize : Text → Text) (l l' : Text) : Prop :=
  l' = l ∨ l' = normalize l ∨ Fence.isOpening l ∧ l' = Fence.normalizeOpening l

theorem OpenBlock.lines_sublist_forceClosed (b : OpenBlock) : b.lines.Sublist b.forceClosed :=
  (List.Sublist.refl _).append (List.sublist_cons_self _ _)

/-- Closing a document adds lines between its own and drops none of them. -/
theorem exists_sublist_closeLines (normalize : Text → Text) (block? : Option OpenBlock)
    (rest : List Text) : ∃ ls, List.Forall₂ (KeptLine normalize) rest ls ∧
      (block?.elim [] OpenBlock.lines ++ ls).Sublist (closeLines normalize block? rest) := by
  induction rest generalizing block? with
  | nil =>
    cases block? with
    | none => exact ⟨[], .nil, List.nil_sublist _⟩
    | some b => exact ⟨[], .nil, by simpa [closeLines] using b.lines_sublist_forceClosed⟩
  | cons l rest ih =>
    by_cases hl : Fence.isOpening l
    · obtain ⟨ls, hls, hsub⟩ := ih (some (.start (Fence.normalizeOpening l)))
      have hkept : KeptLine normalize l (Fence.normalizeOpening l) := .inr (.inr ⟨hl, rfl⟩)
      refine ⟨Fence.normalizeOpening l :: ls, .cons hkept hls, ?_⟩
      cases block? with
      | none =>
        rw [closeLines, if_pos hl]
        exact hsub
      | some b =>
        rw [closeLines, if_pos hl]
        exact b.lines_sublist_forceClosed.append hsub
    · cases block? with
      | none =>
        obtain ⟨ls, hls, hsub⟩ := ih none
        rw [closeLines, if_neg hl]
        exact ⟨l :: ls, .cons (.inl rfl) hls, hsub.cons_cons l⟩
      | some b =>
        rw [closeLines, if_neg hl]
        by_cases hclosing : Fence.isClosing l
        · obtain ⟨ls, hls, hsub⟩ := ih none
          rw [if_pos hclosing]
          exact ⟨l :: ls, .cons (.inl rfl) hls, (List.Sublist.refl _).append (hsub.cons_cons l)⟩
        · obtain ⟨ls, hls, hsub⟩ := ih (some (b.add (normalize l)))
          rw [if_neg hclosing]
          refine ⟨normalize l :: ls, .cons (.inr (.inl rfl)) hls, ?_⟩
          simpa [OpenBlock.lines_add] using hsub

theorem closeLines_ne_nil (h : rest ≠ []) : closeLines normalize none rest ≠ [] := by
  intro hnil
  obtain ⟨ls, hls, hsub⟩ := exists_sublist_closeLines normalize none rest
  rw [hnil, List.sublist_nil, Option.elim_none, List.nil_append] at hsub
  rw [hsub, List.forall₂_nil_right_iff] at hls
  exact h hls

theorem lines_closeBlocks_of (hline : ∀ l, '\n' ∉ l → '\n' ∉ normalize l) (t : Text) :
    Text.lines (closeBlocks t normalize) = closeLines normalize none (Text.lines t) := by
  refine Text.lines_unlines (closeLines_ne_nil (Text.lines_ne_nil t)) ?_
  refine forall_mem_closeLines (by decide) (fun l hl _ h ↦ ?_) hline none (by simp)
    fun l hl ↦ Text.newline_not_mem_of_mem_lines hl
  rcases Fence.mem_normalizeOpening h with h | h
  · exact hl h
  · exact absurd h (by decide)

theorem lines_closeBlocks (t : Text) :
    Text.lines (closeBlocks t) = closeLines Line.normalize none (Text.lines t) := by
  refine lines_closeBlocks_of (fun l hl h ↦ ?_) t
  rcases (Line.normalizes_normalize l).adds _ h with h | h
  · exact hl h
  · exact absurd h (by decide)

theorem tidyBlocks_split_closeBlocks (t : Text) :
    TidyBlocks (Segment.split (closeBlocks t)) ((Text.lines t).countP Fence.isOpening) := by
  have htidy := tidyBlocks_closeLines (fun _ ↦ isInner_normalize) none (by simp) [] (Text.lines t)
  rw [← lines_closeBlocks] at htidy
  exact ⟨htidy.1, htidy.2.trans (Nat.zero_add _)⟩

/-- In the closed document every block is closed, no line between its fences is a fence, and there
are as many blocks as the document has opening fences, those inside open blocks counted. -/
theorem blocks_closeBlocks (t : Text) :
    (∀ b ∈ Segment.blocks (closeBlocks t), b.isClosed ∧
      ∀ l ∈ b.inner, Fence.isOpening l = false ∧ Fence.isClosing l = false) ∧
    (Segment.blocks (closeBlocks t)).length = (Text.lines t).countP Fence.isOpening := by
  obtain ⟨htidy, hcount⟩ := tidyBlocks_split_closeBlocks t
  exact ⟨htidy, hcount⟩

theorem isClosed_of_mem_split_closeBlocks {t : Text} {b : Block}
    (hb : .diagram b ∈ Segment.split (closeBlocks t)) : b.isClosed := by
  refine ((tidyBlocks_split_closeBlocks t).1 b ?_).1
  exact List.mem_filterMap.mpr ⟨.diagram b, hb, rfl⟩

end DiagramRepair
