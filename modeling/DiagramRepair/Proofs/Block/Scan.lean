import DiagramRepair.Proofs.Block.Normal
import Mathlib.Data.List.Induction

namespace DiagramRepair

variable {normalize : Text → Text} {b : OpenBlock} {block? : Option OpenBlock} {l : Text}
  {before ls rest : List Text}

def LeavesOpen (ls : List Text) : Prop :=
  ∃ before fence after, ls = before ++ fence :: after ∧ Fence.isOpening fence ∧
    ∀ l ∈ after, Fence.isClosing l = false

def leavesOpen (ls : List Text) : Bool :=
  ls.foldl (fun isOpen l ↦ Fence.isOpening l || isOpen && !Fence.isClosing l) false

theorem not_leavesOpen_nil : ¬ LeavesOpen [] := by
  rintro ⟨before, fence, after, h, -⟩
  simp at h

theorem leavesOpen_concat :
    LeavesOpen (ls ++ [l]) ↔ Fence.isOpening l ∨ LeavesOpen ls ∧ Fence.isClosing l = false := by
  constructor
  · rintro ⟨before, fence, after, h, hfence, hafter⟩
    rcases List.eq_nil_or_concat after with rfl | ⟨after, l', rfl⟩
    · obtain ⟨-, hlast⟩ := List.append_inj' h rfl
      rw [(List.cons.inj hlast).1]
      exact .inl hfence
    · have h' : ls ++ [l] = (before ++ fence :: after) ++ [l'] := by simpa using h
      obtain ⟨rfl, hlast⟩ := List.append_inj' h' rfl
      rw [(List.cons.inj hlast).1]
      refine .inr ⟨⟨before, fence, after, rfl, hfence, fun l hl ↦ ?_⟩, hafter l' (by simp)⟩
      exact hafter l (by simp [hl])
  · rintro (hl | ⟨⟨before, fence, after, rfl, hfence, hafter⟩, hl⟩)
    · exact ⟨ls, l, [], rfl, hl, by simp⟩
    · refine ⟨before, fence, after ++ [l], by simp, hfence, ?_⟩
      exact List.forall_mem_append.mpr ⟨hafter, by simpa using hl⟩

theorem leavesOpen_iff : leavesOpen ls ↔ LeavesOpen ls := by
  induction ls using List.reverseRecOn with
  | nil => simp [leavesOpen, not_leavesOpen_nil]
  | append_singleton ls l ih =>
    rw [leavesOpen_concat, ← ih]
    simp [leavesOpen, List.foldl_append]

instance : DecidablePred LeavesOpen := fun _ ↦ decidable_of_iff _ leavesOpen_iff

theorem closeLines_opening (hl : Fence.isOpening l) :
    closeLines normalize block? (l :: rest) = block?.elim [] OpenBlock.forceClosed ++
      closeLines normalize (some (.start (Fence.normalizeOpening l))) rest := by
  cases block? <;> simp [closeLines, hl]

theorem closeLines_plain (hl : Fence.isOpening l = false) :
    closeLines normalize none (l :: rest) = l :: closeLines normalize none rest := by
  simp [closeLines, hl]

theorem closeLines_closing (hl : Fence.isClosing l) :
    closeLines normalize (some b) (l :: rest) = b.lines ++ l :: closeLines normalize none rest := by
  simp [closeLines, hl, Fence.isOpening_of_isClosing hl]

theorem closeLines_isInner (hl : IsInner l) :
    closeLines normalize (some b) (l :: rest) =
      closeLines normalize (some (b.add (normalize l))) rest := by
  simp [closeLines, hl.1, hl.2]

/-- A line opens a block, closes the one that is open, belongs to it, or stands outside blocks. -/
theorem line_cases (l : Text) (block? : Option OpenBlock) :
    Fence.isOpening l ∨ (Fence.isOpening l = false ∧ block? = none) ∨
      ∃ b, block? = some b ∧ (Fence.isClosing l ∨ IsInner l) := by
  cases hopening : Fence.isOpening l with
  | true => exact .inl rfl
  | false =>
    cases block? with
    | none => exact .inr (.inl ⟨rfl, rfl⟩)
    | some b =>
      cases hclosing : Fence.isClosing l with
      | true => exact .inr (.inr ⟨b, rfl, .inl rfl⟩)
      | false => exact .inr (.inr ⟨b, rfl, .inr ⟨hopening, hclosing⟩⟩)

/-- The block that is open before some lines is none of the part that ends there, or it meets an
opening fence there. -/
theorem closeLines_append (hopen : block?.isSome ↔ LeavesOpen before)
    (h : ¬ LeavesOpen (before ++ ls) ∨ ∃ fence rest', rest = fence :: rest' ∧
      Fence.isOpening fence) :
    closeLines normalize block? (ls ++ rest) =
      closeLines normalize block? ls ++ closeLines normalize none rest := by
  induction ls generalizing before block? with
  | nil =>
    cases block? with
    | none => rfl
    | some b =>
      rcases h with h | ⟨fence, rest, rfl, hfence⟩
      · rw [List.append_nil] at h
        exact absurd (hopen.mp rfl) h
      · rw [List.nil_append, closeLines_opening hfence, closeLines_opening hfence]
        simp [closeLines]
  | cons l ls ih =>
    have hbefore : before ++ l :: ls = before ++ [l] ++ ls := by simp
    rw [hbefore] at h
    rw [List.cons_append]
    rcases line_cases l block? with hl | ⟨hl, rfl⟩ | ⟨b, rfl, hl | hl⟩
    · rw [closeLines_opening hl, closeLines_opening hl, ih (by simp [leavesOpen_concat, hl]) h]
      simp
    · have hbefore : ¬ LeavesOpen before := by simpa using hopen
      rw [closeLines_plain hl, closeLines_plain hl,
        ih (by simp [leavesOpen_concat, hl, hbefore]) h]
      simp
    · rw [closeLines_closing hl, closeLines_closing hl,
        ih (by simp [leavesOpen_concat, hl, Fence.isOpening_of_isClosing hl]) h]
      simp
    · rw [closeLines_isInner hl, closeLines_isInner hl,
        ih (by simpa [leavesOpen_concat, hl.1, hl.2] using hopen) h]

/-- Two parts of a document are closed each by itself, if the first one leaves no block open or the
second one begins with an opening fence. -/
theorem closeBlocks_append_newline (normalize : Text → Text) (s t : Text)
    (h : ¬ LeavesOpen (Text.lines s) ∨
      ∃ fence rest, Text.lines t = fence :: rest ∧ Fence.isOpening fence) :
    closeBlocks (s ++ '\n' :: t) normalize =
      closeBlocks s normalize ++ '\n' :: closeBlocks t normalize := by
  have hopen : (none : Option OpenBlock).isSome ↔ LeavesOpen [] := by simp [not_leavesOpen_nil]
  have hlines : closeLines normalize none (Text.lines s ++ Text.lines t) =
      closeLines normalize none (Text.lines s) ++ closeLines normalize none (Text.lines t) :=
    closeLines_append hopen h
  calc closeBlocks (s ++ '\n' :: t) normalize
      = Text.unlines (closeLines normalize none (Text.lines s ++ Text.lines t)) := by
        rw [closeBlocks, Text.lines_append_newline]
    _ = closeBlocks s normalize ++ '\n' :: closeBlocks t normalize := by
        rw [hlines, Text.unlines_append (closeLines_ne_nil (Text.lines_ne_nil s))
          (closeLines_ne_nil (Text.lines_ne_nil t))]
        rfl

/-- A closed first part before loose text, and an open one before an opening fence. -/
theorem closeBlocks_append_newline_fences :
    let closed := Text.of "```mermaid\nA --> B\n```\nC"
    let opened := Text.of "D\n```mermaid\nA --> B\nC"
    let next := Text.of "``` mermaid\nD --> E"
    (¬ LeavesOpen (Text.lines closed) ∧ closeBlocks (closed ++ '\n' :: opened) =
      closeBlocks closed ++ '\n' :: closeBlocks opened) ∧
    (∃ fence rest, Text.lines next = fence :: rest ∧ Fence.isOpening fence) ∧
      closeBlocks (opened ++ '\n' :: next) = closeBlocks opened ++ '\n' :: closeBlocks next := by
  intro closed opened next
  have hclosed : ¬ LeavesOpen (Text.lines closed) := by decide
  have hnext : ∃ fence rest, Text.lines next = fence :: rest ∧ Fence.isOpening fence :=
    ⟨_, _, rfl, by decide⟩
  exact ⟨⟨hclosed, closeBlocks_append_newline _ closed opened (.inl hclosed)⟩, hnext,
    closeBlocks_append_newline _ opened next (.inr hnext)⟩

/-- A line of a document between the lines before it and the lines after it. -/
structure Located where
  before : List Text
  line : Text
  after : List Text

def locatedFrom (before : List Text) : List Text → List Located
  | [] => []
  | l :: rest => ⟨before, l, rest⟩ :: locatedFrom (before ++ [l]) rest

def located (ls : List Text) : List Located := locatedFrom [] ls

theorem mem_locatedFrom {p : Located} :
    p ∈ locatedFrom before rest ↔ ∃ read, p.before = before ++ read ∧
      rest = read ++ p.line :: p.after := by
  induction rest generalizing before with
  | nil => simp [locatedFrom]
  | cons l rest ih =>
    rw [locatedFrom, List.mem_cons, ih]
    constructor
    · rintro (rfl | ⟨read, hbefore, rfl⟩)
      · exact ⟨[], by simp, rfl⟩
      · exact ⟨l :: read, by simp [hbefore], rfl⟩
    · rintro ⟨_ | ⟨l', read⟩, hbefore, hrest⟩
      · obtain ⟨rfl, rfl⟩ := List.cons.inj hrest
        rw [List.append_nil] at hbefore
        exact .inl (by rw [← hbefore])
      · obtain ⟨rfl, rfl⟩ := List.cons.inj hrest
        exact .inr ⟨read, by simp [hbefore], rfl⟩

theorem mem_located {p : Located} : p ∈ located ls ↔ ls = p.before ++ p.line :: p.after := by
  simp [located, mem_locatedFrom]

namespace Located

def meetsOpening (after : List Text) : Bool :=
  (after.find? fun l ↦ Fence.isOpening l || Fence.isClosing l).all Fence.isOpening

/-- The line opens a block that is not closed before the next one opens or the document ends. -/
def opensInterrupted (p : Located) : Bool := Fence.isOpening p.line && meetsOpening p.after

/-- The missing fence of a block that is interrupted, if no line with an arrow comes before that. -/
def missingFence (normalize : Text → Text) (after : List Text) : List Text :=
  if (after.find? fun l ↦ Fence.isOpening l || Fence.isClosing l ||
      Line.hasArrow (normalize l)).all Fence.isOpening then [Fence.closing] else []

def closed (normalize : Text → Text) (p : Located) : List Text :=
  if Fence.isOpening p.line then
    Fence.normalizeOpening p.line :: missingFence normalize p.after
  else if LeavesOpen p.before ∧ Fence.isClosing p.line = false then
    normalize p.line ::
      if Line.hasArrow (normalize p.line) then missingFence normalize p.after else []
  else [p.line]

end Located

open Located

/-- The fence that an open block lacks goes behind its last line with an arrow, so whether it goes
there is settled by the lines to come. -/
theorem closeLines_eq_flatMap (before : List Text) (hopen : block?.isSome ↔ LeavesOpen before) :
    closeLines normalize block? rest =
      block?.elim [] (fun b ↦ b.upToArrow ++ (missingFence normalize rest ++ b.sinceArrow)) ++
        (locatedFrom before rest).flatMap (closed normalize) := by
  induction rest generalizing before block? with
  | nil => cases block? <;> simp [closeLines, locatedFrom, missingFence, OpenBlock.forceClosed]
  | cons l rest ih =>
    rw [locatedFrom, List.flatMap_cons]
    rcases line_cases l block? with hl | ⟨hl, rfl⟩ | ⟨b, rfl, hl | hl⟩
    · rw [closeLines_opening hl, ih (before ++ [l]) (by simp [leavesOpen_concat, hl])]
      cases block? <;> simp [closed, missingFence, hl, OpenBlock.start, OpenBlock.forceClosed]
    · have hbefore : ¬ LeavesOpen before := by simpa using hopen
      rw [closeLines_plain hl,
        ih (before ++ [l]) (by simp [leavesOpen_concat, hl, hbefore])]
      simp [closed, hl, hbefore]
    · have hopening := Fence.isOpening_of_isClosing hl
      rw [closeLines_closing hl,
        ih (before ++ [l]) (by simp [leavesOpen_concat, hl, hopening])]
      simp [closed, missingFence, hl, hopening, OpenBlock.lines]
    · have hbefore : LeavesOpen before := hopen.mp rfl
      rw [closeLines_isInner hl,
        ih (before ++ [l]) (by simpa [leavesOpen_concat, hl.1, hl.2] using hopen)]
      by_cases harrow : Line.hasArrow (normalize l)
      · simp [closed, missingFence, hl.1, hl.2, hbefore, harrow, OpenBlock.add, OpenBlock.lines]
      · simp [closed, missingFence, hl.1, hl.2, hbefore, harrow, OpenBlock.add]

/-- One fence is added for each block that is interrupted. -/
theorem length_closeLines (block? : Option OpenBlock) (before : List Text) :
    (closeLines normalize block? rest).length =
      block?.elim 0 (fun b ↦ b.lines.length + (meetsOpening rest).toNat) + rest.length +
        (locatedFrom before rest).countP opensInterrupted := by
  induction rest generalizing before block? with
  | nil =>
    cases block? <;>
      simp [closeLines, locatedFrom, meetsOpening, OpenBlock.forceClosed, OpenBlock.lines]
    omega
  | cons l rest ih =>
    rw [locatedFrom, List.countP_cons]
    rcases line_cases l block? with hl | ⟨hl, rfl⟩ | ⟨b, rfl, hl | hl⟩
    · rw [closeLines_opening hl, List.length_append, ih _ (before ++ [l])]
      have hmeets : meetsOpening (l :: rest) := by simp [meetsOpening, hl]
      have hopens : opensInterrupted ⟨before, l, rest⟩ = meetsOpening rest := by
        simp [opensInterrupted, hl]
      cases block? <;> cases h : meetsOpening rest <;>
        simp [hmeets, hopens, h, OpenBlock.start, OpenBlock.lines, OpenBlock.forceClosed] <;> omega
    · rw [closeLines_plain hl, List.length_cons, ih _ (before ++ [l])]
      simp [opensInterrupted, hl]
      omega
    · have hopening := Fence.isOpening_of_isClosing hl
      rw [closeLines_closing hl, List.length_append, List.length_cons, ih _ (before ++ [l])]
      simp [opensInterrupted, hopening, meetsOpening, hl]
      omega
    · rw [closeLines_isInner hl, ih _ (before ++ [l])]
      simp [opensInterrupted, hl.1, hl.2, meetsOpening, OpenBlock.lines_add]
      omega

/-- Every line of the document is kept in its place: an opening fence in normal form, a line of a
block normalized, any other one as it is. Between them stands one closing fence more for each block
that is interrupted, behind its last line with an arrow or else behind its opening fence. -/
theorem lines_closeBlocks_located (hline : ∀ l, '\n' ∉ l → '\n' ∉ normalize l) (t : Text) :
    Text.lines (closeBlocks t normalize) = (located (Text.lines t)).flatMap (closed normalize) ∧
    (Text.lines (closeBlocks t normalize)).length =
      (Text.lines t).length + (located (Text.lines t)).countP opensInterrupted := by
  have hopen : (none : Option OpenBlock).isSome ↔ LeavesOpen [] := by simp [not_leavesOpen_nil]
  rw [lines_closeBlocks_of hline]
  constructor
  · simpa [located] using closeLines_eq_flatMap [] hopen
  · simpa [located] using length_closeLines none []

/-- The first block is interrupted behind an arrow, the second one ends with the document. -/
theorem lines_closeBlocks_located_trimEnd :
    let t := Text.of "A \n``` mermaid\nA --> B \nC \n```mermaid\nD "
    (∀ l, '\n' ∉ l → '\n' ∉ Text.trimEnd l) ∧
    Text.lines (closeBlocks t Text.trimEnd) =
      ["A ", "```mermaid", "A --> B", "```", "C", "```mermaid", "```", "D"].map Text.of ∧
    (Text.lines (closeBlocks t Text.trimEnd)).length = 6 + 2 := by
  intro t
  have hline : ∀ l, '\n' ∉ l → '\n' ∉ Text.trimEnd l :=
    fun l hl h ↦ hl (Text.trimEnd_subset l h)
  obtain ⟨hlines, hcount⟩ := lines_closeBlocks_located hline t
  exact ⟨hline, hlines.trans (by decide), hcount.trans (by decide)⟩

end DiagramRepair
