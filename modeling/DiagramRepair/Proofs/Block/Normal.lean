import DiagramRepair.Proofs.Block.Closing

namespace DiagramRepair

variable {normalize : Text → Text} {b : OpenBlock} {block? : Option OpenBlock}
  {closing l r s t : Text} {inner ls rest : List Text}

open Pattern

namespace Fence

theorem isOpening_of_isClosing (h : isClosing l) : isOpening l = false := by
  rw [isClosing, beq_iff_eq] at h
  rw [isOpening, h]
  decide

theorem takeWhile_isBlank (hs : Blank s) (hr : ∀ c ∈ r.head?, Text.isBlank c = false) :
    (s ++ r).takeWhile Text.isBlank = s := by
  rw [List.takeWhile_append_of_pos hs]
  cases r with
  | nil => simp
  | cons c r => simp [hr c rfl]

/-- A text that begins with the bare fence sign begins with no other sign. -/
theorem IsSign.eq_opening {u v : Text} (hu : IsSign u) (h : opening ++ r = u ++ v) :
    u = opening := by
  obtain ⟨s, w, rfl, hs, hw⟩ := hu
  have hword : Text.of "mermaid" ++ r = s ++ (w ++ v) := by
    rw [List.append_assoc, List.append_assoc] at h
    have hticks : Text.of "```" ++ (Text.of "mermaid" ++ r) = Text.of "```" ++ (s ++ (w ++ v)) := h
    exact List.append_cancel_left hticks
  obtain rfl : s = [] := by
    cases s with
    | nil => rfl
    | cons c s =>
      obtain rfl : 'm' = c := (List.cons.inj hword).1
      exact absurd (hs 'm' (by simp)) (by decide)
  rcases hw with ⟨s₁, s₂, rfl, -⟩ | rfl
  · exact absurd (List.cons.inj hword).1 (by decide)
  · rfl

/-- An opening fence in normal form is the bare sign behind the indentation. -/
theorem exists_normalizeOpening (h : isOpening l) :
    ∃ s r, Blank s ∧ normalizeOpening l = s ++ (opening ++ r) := by
  obtain ⟨s, u, r, rfl, hs, hu⟩ := isOpening_iff.mp h
  have hhead : ∀ c ∈ (u ++ r).head?, Text.isBlank c = false := by
    obtain ⟨⟨v, rfl⟩, -⟩ := hu.exists_snoc
    rintro _ ⟨⟩
    decide
  rw [normalizeOpening, takeWhile_isBlank hs hhead, Text.trimStart_append hs hhead]
  rcases replaceFirst_eq steady_openingPattern (fun _ ↦ opening) (u ++ r) with
    ⟨hnone, -⟩ | ⟨m, ⟨gs, hm, -⟩, -, -, he⟩
  · have htakes : openingPattern.Takes [] u r [] := takes_openingPattern.mpr ⟨rfl, hu, rfl⟩
    exact absurd htakes (search?_eq_none steady_openingPattern hnone (s := []) rfl [])
  · obtain ⟨hb, -, -⟩ := takes_openingPattern.mp hm
    exact ⟨s, m.after, hs, by rw [he, hb]; rfl⟩

theorem normalizeOpening_opening (hs : Blank s) (r : Text) :
    normalizeOpening (s ++ (opening ++ r)) = s ++ (opening ++ r) := by
  have hhead : ∀ c ∈ (opening ++ r).head?, Text.isBlank c = false := by
    rintro _ ⟨⟩
    decide
  rw [normalizeOpening, takeWhile_isBlank hs hhead, Text.trimStart_append hs hhead]
  rcases replaceFirst_eq steady_openingPattern (fun _ ↦ opening) (opening ++ r) with
    ⟨-, he⟩ | ⟨m, ⟨gs, hm, -⟩, -, ht, he⟩
  · rw [he]
  · obtain ⟨hb, hu, -⟩ := takes_openingPattern.mp hm
    rw [hb, List.reverse_nil, List.nil_append] at ht he
    rw [he, ht, hu.eq_opening ht]

theorem normalizeOpening_normalizeOpening (h : isOpening l) :
    normalizeOpening (normalizeOpening l) = normalizeOpening l := by
  obtain ⟨s, r, hs, he⟩ := exists_normalizeOpening h
  rw [he, normalizeOpening_opening hs]

end Fence

structure IsSettled (normalize : Text → Text) (l : Text) : Prop where
  inner : IsInner l
  fixed : normalize l = l

/-- The lines of a document with every block closed: its opening fence is in normal form, its inner
lines are settled. -/
inductive ClosedLines (normalize : Text → Text) : List Text → Prop
  | nil : ClosedLines normalize []
  | plain {l : Text} {rest : List Text} :
    Fence.isOpening l = false → ClosedLines normalize rest → ClosedLines normalize (l :: rest)
  | block {fence closing : Text} {inner rest : List Text} :
    Fence.isOpening fence → Fence.normalizeOpening fence = fence →
    (∀ l ∈ inner, IsSettled normalize l) → Fence.isClosing closing → ClosedLines normalize rest →
    ClosedLines normalize (fence :: (inner ++ closing :: rest))

theorem ClosedLines.append_plain (hls : ∀ l ∈ ls, Fence.isOpening l = false)
    (h : ClosedLines normalize rest) : ClosedLines normalize (ls ++ rest) := by
  induction ls with
  | nil => exact h
  | cons l ls ih =>
    rw [List.forall_mem_cons] at hls
    exact .plain hls.1 (ih hls.2)

theorem closeLines_inner (hinner : ∀ l ∈ inner, IsSettled normalize l)
    (hclosing : Fence.isClosing closing) :
    closeLines normalize (some b) (inner ++ closing :: rest) =
      b.lines ++ (inner ++ closing :: closeLines normalize none rest) := by
  induction inner generalizing b with
  | nil =>
    rw [List.nil_append, closeLines, if_neg (by simp [Fence.isOpening_of_isClosing hclosing]),
      List.nil_append]
    exact if_pos hclosing
  | cons l inner ih =>
    rw [List.forall_mem_cons] at hinner
    obtain ⟨⟨hopening, hclosing'⟩, hfixed⟩ := hinner.1
    rw [List.cons_append, closeLines, if_neg (by simp [hopening])]
    simp only [hclosing', Bool.false_eq_true, if_false]
    rw [hfixed, ih hinner.2, OpenBlock.lines_add]
    simp

/-- Nothing is left to do in a closed document. -/
theorem ClosedLines.closeLines_eq (h : ClosedLines normalize ls) :
    closeLines normalize none ls = ls := by
  induction h with
  | nil => rfl
  | plain hl _ ih => rw [closeLines, if_neg (by simp [hl]), ih]
  | block hfence hnormal hinner hclosing _ ih =>
    rw [closeLines, if_pos hfence, hnormal, closeLines_inner hinner hclosing, ih]
    rfl

structure OpenBlock.Settled (normalize : Text → Text) (b : OpenBlock) : Prop where
  opens : ∃ fence inner, b.upToArrow = fence :: inner ∧ Fence.isOpening fence ∧
    Fence.normalizeOpening fence = fence ∧ ∀ l ∈ inner, IsSettled normalize l
  since : ∀ l ∈ b.sinceArrow, IsSettled normalize l

namespace OpenBlock

theorem settled_start (h : Fence.isOpening l) :
    (start (Fence.normalizeOpening l)).Settled normalize :=
  ⟨⟨_, [], rfl, Fence.isOpening_normalizeOpening h, Fence.normalizeOpening_normalizeOpening h,
    by simp⟩, by simp [start]⟩

theorem Settled.add (hb : b.Settled normalize) (hl : IsSettled normalize l) :
    (b.add l).Settled normalize := by
  obtain ⟨⟨fence, inner, hup, hfence, hnormal, hinner⟩, hsince⟩ := hb
  have hsince' : ∀ l' ∈ b.sinceArrow ++ [l], IsSettled normalize l' :=
    List.forall_mem_append.mpr ⟨hsince, by simpa using hl⟩
  rw [OpenBlock.add]
  split
  · refine ⟨⟨fence, inner ++ (b.sinceArrow ++ [l]), by simp [lines, hup], hfence, hnormal, ?_⟩,
      by simp⟩
    exact List.forall_mem_append.mpr ⟨hinner, hsince'⟩
  · exact ⟨⟨fence, inner, hup, hfence, hnormal, hinner⟩, hsince'⟩

theorem Settled.forceClosed (hb : b.Settled normalize) (h : ClosedLines normalize rest) :
    ClosedLines normalize (b.forceClosed ++ rest) := by
  obtain ⟨⟨fence, inner, hup, hfence, hnormal, hinner⟩, hsince⟩ := hb
  have hlines : b.forceClosed ++ rest =
      fence :: (inner ++ Fence.closing :: (b.sinceArrow ++ rest)) := by
    simp [OpenBlock.forceClosed, hup]
  rw [hlines]
  exact .block hfence hnormal hinner (by decide)
    (h.append_plain fun l hl ↦ (hsince l hl).inner.1)

theorem Settled.closed (hb : b.Settled normalize) (hl : Fence.isClosing l)
    (h : ClosedLines normalize rest) : ClosedLines normalize (b.lines ++ l :: rest) := by
  obtain ⟨⟨fence, inner, hup, hfence, hnormal, hinner⟩, hsince⟩ := hb
  have hlines : b.lines ++ l :: rest = fence :: (inner ++ b.sinceArrow ++ l :: rest) := by
    simp [lines, hup]
  rw [hlines]
  exact .block hfence hnormal (List.forall_mem_append.mpr ⟨hinner, hsince⟩) hl h

end OpenBlock

/-- A normalized inner line is settled, so every block is settled while it is open; where it is
forced closed, the lines that it leaves behind are plain ones. -/
theorem closedLines_closeLines (hrest : ∀ l ∈ rest, IsInner l → IsSettled normalize (normalize l))
    (hb : ∀ b ∈ block?, b.Settled normalize) :
    ClosedLines normalize (closeLines normalize block? rest) := by
  induction rest generalizing block? with
  | nil =>
    cases block? with
    | none => exact .nil
    | some b => simpa [closeLines] using (hb b rfl).forceClosed .nil
  | cons l rest ih =>
    rw [List.forall_mem_cons] at hrest
    by_cases hopening : Fence.isOpening l
    · have hopened : ClosedLines normalize
          (closeLines normalize (some (.start (Fence.normalizeOpening l))) rest) :=
        ih hrest.2 (by simpa using OpenBlock.settled_start hopening)
      cases block? with
      | none =>
        rw [closeLines, if_pos hopening]
        exact hopened
      | some b =>
        rw [closeLines, if_pos hopening]
        exact (hb b rfl).forceClosed hopened
    · cases block? with
      | none =>
        rw [closeLines, if_neg hopening]
        exact .plain (by simpa using hopening) (ih hrest.2 (by simp))
      | some b =>
        rw [closeLines, if_neg hopening]
        by_cases hclosing : Fence.isClosing l
        · rw [if_pos hclosing]
          exact (hb b rfl).closed hclosing (ih hrest.2 (by simp))
        · rw [if_neg hclosing]
          have hsettled : IsSettled normalize (normalize l) :=
            hrest.1 ⟨by simpa using hopening, by simpa using hclosing⟩
          exact ih hrest.2 (by simpa using (hb b rfl).add hsettled)

/-- Closing the blocks of a document a second time changes nothing, if the normalizer keeps what it
has normalized, writes no line feed and makes no fence of a line that is none. -/
theorem closeBlocks_closeBlocks (hline : ∀ l, '\n' ∉ l → '\n' ∉ normalize l)
    (hfixed : ∀ l, '\n' ∉ l → normalize (normalize l) = normalize l)
    (hinner : ∀ l, '\n' ∉ l → IsInner l → IsInner (normalize l)) (t : Text) :
    closeBlocks (closeBlocks t normalize) normalize = closeBlocks t normalize := by
  have hclosed : ClosedLines normalize (closeLines normalize none (Text.lines t)) := by
    refine closedLines_closeLines (fun l hl hl' ↦ ?_) (by simp)
    have hnewline : '\n' ∉ l := Text.newline_not_mem_of_mem_lines hl
    exact ⟨hinner l hnewline hl', hfixed l hnewline⟩
  calc closeBlocks (closeBlocks t normalize) normalize
      = Text.unlines (closeLines normalize none (Text.lines (closeBlocks t normalize))) := rfl
    _ = Text.unlines (closeLines normalize none (Text.lines t)) := by
        rw [lines_closeBlocks_of hline, hclosed.closeLines_eq]

/-- The blanks at the end of the lines are dropped; the block is left open at a second fence, which
is not in its bare form. -/
theorem closeBlocks_closeBlocks_trimEnd :
    let t := Text.of "``` mermaid\nA --> B \nB\n```(mermaid)\nC  "
    ((∀ l, '\n' ∉ l → '\n' ∉ Text.trimEnd l) ∧
      (∀ l, '\n' ∉ l → Text.trimEnd (Text.trimEnd l) = Text.trimEnd l) ∧
      ∀ l, '\n' ∉ l → IsInner l → IsInner (Text.trimEnd l)) ∧
    closeBlocks (closeBlocks t Text.trimEnd) Text.trimEnd = closeBlocks t Text.trimEnd := by
  intro t
  have hline : ∀ l, '\n' ∉ l → '\n' ∉ Text.trimEnd l := by
    intro l hl h
    obtain ⟨s, hs, -⟩ := Text.exists_trimEnd l
    exact hl (hs ▸ List.mem_append_left s h)
  have hfixed : ∀ l, '\n' ∉ l → Text.trimEnd (Text.trimEnd l) = Text.trimEnd l := by
    intro l _
    obtain ⟨s, hs, hblank⟩ := Text.exists_trimEnd l
    rw [← Text.trimEnd_append_blank hblank, ← hs]
  have hinner : ∀ l, '\n' ∉ l → IsInner l → IsInner (Text.trimEnd l) := by
    intro l _ h
    obtain ⟨s, hs, hblank⟩ := Text.exists_trimEnd l
    refine ⟨Bool.eq_false_iff.mpr fun hl ↦ ?_, Bool.eq_false_iff.mpr fun hl ↦ ?_⟩
    · obtain ⟨m, u, r, he, hm, hu⟩ := Fence.isOpening_iff.mp hl
      have hopening : Fence.isOpening l :=
        Fence.isOpening_iff.mpr ⟨m, u, r ++ s, by rw [hs, he]; simp, hm, hu⟩
      simp [h.1] at hopening
    · obtain ⟨m, m', he, hm, hm'⟩ := Fence.isClosing_iff.mp hl
      have hclosing : Fence.isClosing l :=
        Fence.isClosing_iff.mpr ⟨m, m' ++ s, by rw [hs, he]; simp, hm,
          List.forall_mem_append.mpr ⟨hm', hblank⟩⟩
      simp [h.2] at hclosing
  exact ⟨⟨hline, hfixed, hinner⟩, closeBlocks_closeBlocks hline hfixed hinner t⟩

end DiagramRepair
