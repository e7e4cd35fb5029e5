import DiagramRepair.Checker
import DiagramRepair.Proofs.Block.Closed
import DiagramRepair.Proofs.Block.Closing

namespace DiagramRepair

open Pattern

variable {l m t u : Text} {ls : List Text} {s : Segment}

def hasFenceSign (l : Text) : Bool :=
  (Text.trimStart l).startsWith (Text.of "```") || (Text.trimStart l).startsWith (Text.of "~~~")

structure RegularFences (ls : List Text) : Prop where
  alternate : ∃ n, ls.filter hasFenceSign =
    (List.replicate n [Fence.opening, Fence.closing]).flatten
  apart : ¬ [Fence.opening, Fence.closing] <:+: ls

/-- The lines of a document with regular fences, block by block. -/
inductive Fenced : List Text → Prop
  | plain {ls : List Text} : (∀ l ∈ ls, hasFenceSign l = false) → Fenced ls
  | block {ls inner rest : List Text} : (∀ l ∈ ls, hasFenceSign l = false) → inner ≠ [] →
    (∀ l ∈ inner, hasFenceSign l = false) → Fenced rest →
    Fenced (ls ++ Fence.opening :: (inner ++ Fence.closing :: rest))

theorem RegularFences.fenced (h : RegularFences ls) : Fenced ls := by
  obtain ⟨⟨n, hn⟩, hapart⟩ := h
  induction n generalizing ls with
  | zero => exact .plain fun l hl ↦ by simpa using List.filter_eq_nil_iff.mp hn l hl
  | succ n ih =>
    rw [List.replicate_succ, List.flatten_cons, List.cons_append, List.cons_append,
      List.nil_append] at hn
    obtain ⟨plain, ls', rfl, hplain, -, hn⟩ := List.filter_eq_cons_iff.mp hn
    obtain ⟨inner, rest, rfl, hinner, -, hn⟩ := List.filter_eq_cons_iff.mp hn
    have hne : inner ≠ [] := by
      rintro rfl
      exact hapart ⟨plain, rest, by simp⟩
    have hrest : ¬ [Fence.opening, Fence.closing] <:+: rest := fun htouch ↦
      hapart (htouch.trans ⟨plain ++ Fence.opening :: (inner ++ [Fence.closing]), [], by simp⟩)
    exact .block (by simpa using hplain) hne (by simpa using hinner) (ih hrest hn)

theorem hasFenceSign_append (hm : Blank m) (hu : IsFenceSign u) (r : Text) :
    hasFenceSign (m ++ (u ++ r)) := by
  have htrim : Text.trimStart (m ++ (u ++ r)) = u ++ r := by
    refine Text.trimStart_append hm fun c hc ↦ ?_
    rcases hu with rfl | rfl <;> obtain rfl := Option.some.inj hc <;> decide
  rw [hasFenceSign, htrim]
  rcases hu with rfl | rfl <;> simp [Text.startsWith]

theorem IsCountedFence.hasFenceSign (hu : IsCountedFence u) (r : Text) :
    hasFenceSign (u ++ r) := by
  obtain ⟨m, f, rfl, hm, hf⟩ := hu
  have hblanks : ∀ c ∈ " \t".toList, Text.isBlank c := by decide
  rw [List.append_assoc]
  exact hasFenceSign_append (fun c hc ↦ hblanks c (among_eq_true.mp (hm c hc))) hf r

/-- A line without a fence sign is no fence. -/
theorem isInner_of_not_hasFenceSign (h : hasFenceSign l = false) : IsInner l := by
  refine ⟨Bool.eq_false_iff.mpr fun hl ↦ ?_, Bool.eq_false_iff.mpr fun hl ↦ ?_⟩
  · obtain ⟨m, _, r, rfl, hm, s, w, rfl, -⟩ := Fence.isOpening_iff.mp hl
    rw [List.append_assoc, hasFenceSign_append hm (.inl rfl)] at h
    cases h
  · obtain ⟨m, m', rfl, hm, -⟩ := Fence.isClosing_iff.mp hl
    rw [Fence.closing, hasFenceSign_append hm (.inl rfl)] at h
    cases h

theorem isMatch_countedFence_eq_false (h : hasFenceSign l = false) :
    countedFence.isMatch l = false := by
  rw [Bool.eq_false_iff]
  intro hmatch
  obtain ⟨u, r, rfl, hu⟩ := isMatch_countedFence.mp hmatch
  rw [hu.hasFenceSign] at h
  cases h

/-- A block opens only where a line begins with a fence sign. -/
theorem Opens.exists_line {v w : Text} (h : Opens v.reverse w) :
    ∃ l ∈ Text.lines (v ++ w), hasFenceSign l := by
  obtain ⟨hstart, _, r, rfl, ⟨x, s, y, rfl, hx, -⟩, -⟩ := h
  obtain ⟨z, hz⟩ := Text.exists_mem_lines_of_prefix hx.not_mem (s ++ y ++ r)
  refine ⟨x ++ z, ?_, hx.hasFenceSign z⟩
  rw [List.append_assoc x]
  rcases List.eq_nil_or_concat v with rfl | ⟨v, c, rfl⟩
  · exact hz
  · obtain rfl : c = '\n' := by simpa [AtLineStart] using hstart
    rw [List.concat_eq_append, List.append_assoc, List.singleton_append, Text.lines_append_newline]
    exact List.mem_append_right _ hz

theorem not_opens (h : ∀ l ∈ Text.lines t, hasFenceSign l = false) {v w : Text}
    (htvw : t = v ++ w) : ¬ Opens v.reverse w := by
  intro hopens
  obtain ⟨l, hl, hsign⟩ := hopens.exists_line
  rw [h l (htvw ▸ hl)] at hsign
  cases hsign

theorem countedFrom_eq_nil {b : Text} (h : ∀ v w, t = v ++ w → ¬ Opens (v.reverse ++ b) w) :
    countedFrom b t = [] := by
  induction t generalizing b with
  | nil => rfl
  | cons c t ih =>
    have hno : ¬ Closes b (c :: t) := fun hcloses ↦ h [] _ rfl hcloses.opens
    rw [countedFrom_of_not_closes hno]
    refine ih fun v w hvw ↦ ?_
    simpa using h (c :: v) w (by simp [hvw])

/-- The segment is a text without fences, or a closed block that the count reads as it is cut. -/
def Segment.Regular : Segment → Prop
  | text t => ∀ l ∈ Text.lines t, hasFenceSign l = false
  | diagram b => b.isClosed ∧ b.Counted

theorem Segment.Regular.counted (h : s.Regular) : s.Counted := by
  cases s with
  | text t =>
    intro n _ hopens
    rw [isSome_countedOpening] at hopens
    exact absurd hopens (not_opens h (List.take_append_drop n t).symm)
  | diagram b => exact fun _ ↦ h.2

theorem Segment.Regular.closedBlocks_render (h : s.Regular) (hlines : ∀ l ∈ s.lines, '\n' ∉ l) :
    closedBlocks s.render = s.block?.toList.map Block.content := by
  cases s with
  | text t =>
    rw [Segment.render, closedBlocks_eq]
    refine countedFrom_eq_nil fun v w hvw ↦ ?_
    rw [List.append_nil]
    exact not_opens h hvw
  | diagram b => exact DiagramRepair.closedBlocks_render h.2 hlines

theorem regular_of_mem_ofPlain (hls : ∀ l ∈ ls, '\n' ∉ l)
    (h : ∀ l ∈ ls, hasFenceSign l = false) : ∀ s ∈ Segment.ofPlain ls, s.Regular := by
  intro s hs
  rw [Segment.ofPlain] at hs
  split at hs
  · cases hs
  · rename_i hne
    obtain rfl := List.mem_singleton.mp hs
    rwa [Segment.Regular, Text.lines_unlines (by simpa using hne) hls]

theorem counted_of_not_hasFenceSign {inner : List Text} (hne : inner ≠ [])
    (h : ∀ l ∈ inner, hasFenceSign l = false) :
    Block.Counted ⟨Fence.opening, inner, some Fence.closing⟩ := by
  have hopening : countedOpening.isMatch Fence.opening := by decide
  have hclosing : (some Fence.closing).any countedFence.isMatch := by decide
  exact ⟨hopening, hne,
    fun l hl ↦ isMatch_countedFence_eq_false (h l (List.mem_of_mem_tail hl)), hclosing⟩

theorem Fenced.regular (h : Fenced ls) (hls : ∀ l ∈ ls, '\n' ∉ l) :
    ∀ s ∈ Segment.ofLines (.plain []) ls, s.Regular := by
  induction h with
  | @plain ls hplain =>
    rw [Segment.ofLines_all_plain fun l hl ↦ (isInner_of_not_hasFenceSign (hplain l hl)).1]
    exact regular_of_mem_ofPlain hls hplain
  | @block ls inner rest hplain hne hinner hrest ih =>
    rw [Segment.ofLines_plain fun l hl ↦ (isInner_of_not_hasFenceSign (hplain l hl)).1,
      Segment.ofLines_block (by decide)
      (fun l hl ↦ (isInner_of_not_hasFenceSign (hinner l hl)).2) (by decide)]
    intro s hs
    simp only [List.nil_append, List.mem_append, List.mem_cons] at hs
    rcases hs with hs | rfl | hs
    · exact regular_of_mem_ofPlain (fun l hl ↦ hls l (List.mem_append_left _ hl)) hplain s hs
    · exact ⟨rfl, counted_of_not_hasFenceSign hne hinner⟩
    · exact ih (fun l hl ↦ hls l (by simp [hl])) s hs

theorem RegularFences.closedBlocks_eq (h : RegularFences (Text.lines t)) :
    closedBlocks t = (Segment.blocks t).map Block.content := by
  have hregular : ∀ s ∈ Segment.split t, s.Regular :=
    h.fenced.regular fun l hl ↦ Text.newline_not_mem_of_mem_lines hl
  have hrender : ∀ s ∈ Segment.split t,
      closedBlocks s.render = s.block?.toList.map Block.content := fun s hs ↦
    (hregular s hs).closedBlocks_render fun l hl ↦
      Text.newline_not_mem_of_mem_lines (Segment.mem_lines_of_mem_split hs hl)
  rw [closedBlocks_eq_flatMap fun s hs ↦ (hregular s hs).counted, List.flatMap_congr hrender,
    Segment.blocks, List.filterMap_eq_flatMap_toList, List.map_flatMap]

/-- The block of that number is rejected when the grammar is asked about the blocks in order. -/
def Checker.rejects (c : Checker) (asked : Asked) (bs : List Block) (i : Fin bs.length) : Bool :=
  !(c.parse (asked ++ (bs.take i).map Block.content) bs[i].content).accepts

theorem countRejected_contents (c : Checker) (bs : List Block) (asked : Asked) :
    ((c.countRejected (bs.map Block.content)).run asked).1 =
      (List.finRange bs.length).countP (c.rejects asked bs) := by
  induction bs generalizing asked with
  | nil => rfl
  | cons b bs ih =>
    have hrest : c.rejects asked (b :: bs) ∘ Fin.succ = c.rejects (asked ++ [b.content]) bs := by
      funext i
      simp [Checker.rejects]
    have hfirst : c.rejects asked (b :: bs) 0 = !(c.parse asked b.content).accepts := by
      simp [Checker.rejects]
    have hnumbers : List.finRange (b :: bs).length = 0 :: (List.finRange bs.length).map Fin.succ :=
      List.finRange_succ
    rw [List.map_cons, Checker.countRejected, StateT.run_bind]
    change (if (c.parse asked b.content).accepts then
      ((c.countRejected (bs.map Block.content)).run (asked ++ [b.content])).1 else
      ((c.countRejected (bs.map Block.content)).run (asked ++ [b.content])).1 + 1) = _
    rw [ih, hnumbers, List.countP_cons, List.countP_map, hrest, hfirst]
    cases (c.parse asked b.content).accepts <;> rfl

/-- Where the fences are regular, the blocks that are counted are those that the document is cut
into, and the count is the number of blocks that are rejected, whatever the checker. -/
theorem closedBlocks_eq_contents (h : RegularFences (Text.lines t)) :
    closedBlocks t = (Segment.blocks t).map Block.content ∧
    ∀ (c : Checker) (asked : Asked), ((c.countInvalid t).run asked).1 =
      (List.finRange (Segment.blocks t).length).countP (c.rejects asked (Segment.blocks t)) := by
  refine ⟨h.closedBlocks_eq, fun c asked ↦ ?_⟩
  rw [Checker.countInvalid, h.closedBlocks_eq, countRejected_contents]

theorem closedBlocks_eq_contents_two_blocks :
    let t := Text.of
      "see ```mermaid\n```mermaid\n\n A\n```\nmermaid\n```mermaid\nB -- ```x\n\n```\n~~ end"
    let c : Checker := ⟨fun asked _ ↦ .ok asked.isEmpty⟩
    RegularFences (Text.lines t) ∧
    (closedBlocks t = (Segment.blocks t).map Block.content ∧
      (Segment.blocks t).map Block.content = [Text.of "\n A", Text.of "B -- ```x\n"]) ∧
    ((c.countInvalid t).run []).1 =
      (List.finRange (Segment.blocks t).length).countP (c.rejects [] (Segment.blocks t)) ∧
    ((c.countInvalid t).run []).1 = 1 := by
  intro t c
  have hregular : RegularFences (Text.lines t) := ⟨⟨2, by decide +kernel⟩, by decide +kernel⟩
  obtain ⟨hblocks, hcount⟩ := closedBlocks_eq_contents hregular
  exact ⟨hregular, ⟨hblocks, by decide +kernel⟩, hcount c [], by decide +kernel⟩

end DiagramRepair
