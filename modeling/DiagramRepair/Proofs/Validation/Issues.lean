import DiagramRepair.Proofs.Block.Cut
import DiagramRepair.Proofs.Refine.Accepted
import DiagramRepair.Validation

namespace DiagramRepair

open Registry

variable {c : Checker} {asked : Asked} {b : Block} {bs : List Block} {issue : Issue}
  {issue? : Option Issue} {issues : List Issue} {document : Text} {k n : Nat} {s : Severity}

/-- The texts of the closed blocks that are not blank. -/
def askedAbout (bs : List Block) : List Text :=
  (bs.filter fun b ↦ b.isClosed && !Text.isAllBlank b.content).map Block.content

/-- What is reported of the block with a number, given what was asked before. -/
inductive Found (c : Checker) (asked : Asked) (n : Nat) (b : Block) : Option Issue → Prop
  | unclosed (hopen : b.isClosed = false) : Found c asked n b (some (.unclosed n))
  | blank (hclosed : b.isClosed) (hblank : Text.isAllBlank b.content) :
    Found c asked n b (some (.blank n))
  | rejected (hclosed : b.isClosed) (htext : Text.isAllBlank b.content = false)
    (hrejects : (c.parse asked b.content).accepts = false) :
    Found c asked n b (some (.rejected n))
  | accepted (hclosed : b.isClosed) (htext : Text.isAllBlank b.content = false)
    (haccepts : (c.parse asked b.content).accepts) : Found c asked n b none

inductive FoundAll (c : Checker) : Asked → Nat → List Block → List Issue → Prop
  | nil {asked : Asked} {n : Nat} : FoundAll c asked n [] []
  | cons {asked : Asked} {n : Nat} {b : Block} {bs : List Block} {issue? : Option Issue}
    {issues : List Issue} : Found c asked n b issue? →
    FoundAll c (asked ++ askedAbout [b]) (n + 1) bs issues →
    FoundAll c asked n (b :: bs) (issue?.toList ++ issues)

def HasIssue (issues : List Issue) (k : Nat) (s : Severity) : Prop :=
  ∃ issue ∈ issues, issue.block = some k ∧ issue.severity = s

def Issue.Before (issue issue' : Issue) : Prop :=
  ∃ k k', issue.block = some k ∧ issue'.block = some k' ∧ k < k'

theorem askedAbout_cons (b : Block) (bs : List Block) :
    askedAbout (b :: bs) = askedAbout [b] ++ askedAbout bs := by
  rw [askedAbout, askedAbout, askedAbout, ← List.map_append, ← List.filter_append,
    List.singleton_append]

theorem run_validateBlock (c : Checker) (n : Nat) (b : Block) (asked : Asked) :
    ∃ issue?, (validateBlock c n b).run asked = (issue?, asked ++ askedAbout [b]) ∧
      Found c asked n b issue? := by
  have hask : (c.accepts b.content).run asked =
    ((c.parse asked b.content).accepts, asked ++ [b.content]) := rfl
  rw [validateBlock]
  cases hclosed : b.isClosed with
  | false =>
    refine ⟨some (.unclosed n), ?_, .unclosed hclosed⟩
    have hasked : askedAbout [b] = [] := by simp [askedAbout, hclosed]
    rw [hasked, List.append_nil]
    rfl
  | true =>
    cases hblank : Text.isAllBlank b.content with
    | true =>
      refine ⟨some (.blank n), ?_, .blank hclosed hblank⟩
      have hasked : askedAbout [b] = [] := by simp [askedAbout, hblank]
      rw [hasked, List.append_nil]
      rfl
    | false =>
      have hasked : askedAbout [b] = [b.content] := by simp [askedAbout, hclosed, hblank]
      simp only [Bool.not_true, Bool.false_eq_true, if_false, StateT.run_bind, hask, hasked]
      cases hverdict : (c.parse asked b.content).accepts with
      | false => exact ⟨_, rfl, .rejected hclosed hblank hverdict⟩
      | true => exact ⟨_, rfl, .accepted hclosed hblank hverdict⟩

theorem Found.block_eq (h : Found c asked n b (some issue)) : issue.block = some n := by
  cases h <;> rfl

theorem Found.severity_ne_warning (h : Found c asked n b (some issue)) (hclosed : b.isClosed) :
    issue.severity ≠ .warning := by
  cases h with
  | unclosed hopen => simp [hopen] at hclosed
  | blank | rejected => simp [Issue.blank, Issue.rejected]

/-- Which of the four cases a block is in, read off the severity of what is found. -/
theorem Found.severity_iff (h : Found c asked n b issue?) :
    (issue?.map Issue.severity = some .warning ↔ b.isClosed = false) ∧
    (issue?.map Issue.severity = some .info ↔ b.isClosed ∧ Text.isAllBlank b.content) ∧
    (issue?.map Issue.severity = some .error ↔ b.isClosed ∧ Text.isAllBlank b.content = false ∧
      (c.parse asked b.content).accepts = false) ∧
    (issue?.map Issue.severity = none ↔ b.isClosed ∧ Text.isAllBlank b.content = false ∧
      (c.parse asked b.content).accepts) := by
  cases h <;> simp_all [Issue.unclosed, Issue.blank, Issue.rejected]

theorem run_validateBlocks (c : Checker) (n : Nat) (bs : List Block) (asked : Asked) :
    ∃ issues, (validateBlocks c n bs).run asked = (issues, asked ++ askedAbout bs) ∧
      FoundAll c asked n bs issues := by
  induction bs generalizing n asked with
  | nil => exact ⟨[], congrArg (Prod.mk _) (List.append_nil asked).symm, .nil⟩
  | cons b bs ih =>
    obtain ⟨issue?, hfirst, hfound⟩ := run_validateBlock c n b asked
    obtain ⟨issues, hrest, hall⟩ := ih (n + 1) (asked ++ askedAbout [b])
    refine ⟨issue?.toList ++ issues, ?_, .cons hfound hall⟩
    rw [validateBlocks, StateT.run_bind, hfirst]
    change (fun p : List Issue × Asked ↦ (issue?.toList ++ p.1, p.2))
      ((validateBlocks c (n + 1) bs).run (asked ++ askedAbout [b])) = _
    rw [hrest, askedAbout_cons b bs, List.append_assoc]

theorem FoundAll.exists_block (h : FoundAll c asked n bs issues) (hissue : issue ∈ issues) :
    ∃ k < bs.length, issue.block = some (n + k) := by
  induction h with
  | nil => cases hissue
  | cons hfound _ ih =>
    rcases List.mem_append.mp hissue with hissue | hissue
    · obtain rfl := Option.mem_toList.mp hissue
      exact ⟨0, by simp, hfound.block_eq⟩
    · obtain ⟨k, hk, hblock⟩ := ih hissue
      exact ⟨k + 1, by simpa using hk, by rw [hblock]; congr 1; omega⟩

theorem FoundAll.pairwise (h : FoundAll c asked n bs issues) : issues.Pairwise Issue.Before := by
  induction h with
  | nil => exact .nil
  | @cons asked n b bs issue? issues hfound hall ih =>
    cases issue? with
    | none => exact ih
    | some issue =>
      refine List.pairwise_cons.mpr ⟨fun issue' hissue' ↦ ?_, ih⟩
      obtain ⟨k, -, hblock⟩ := hall.exists_block hissue'
      exact ⟨n, n + 1 + k, hfound.block_eq, hblock, by omega⟩

/-- The issue of one block among those of all. -/
theorem FoundAll.getElem? (h : FoundAll c asked n bs issues) (hb : bs[k]? = some b) :
    ∃ issue?, Found c (asked ++ askedAbout (bs.take k)) (n + k) b issue? ∧
      ∀ issue, issue ∈ issues ∧ issue.block = some (n + k) ↔ issue? = some issue := by
  induction h generalizing k with
  | nil => cases hb
  | @cons asked n b₀ bs first? issues hfound hall ih =>
    cases k with
    | zero =>
      obtain rfl := Option.some.inj hb
      have hasked : asked ++ askedAbout ((b₀ :: bs).take 0) = asked := List.append_nil asked
      refine ⟨first?, hasked.symm ▸ hfound, fun issue ↦ ⟨fun ⟨hmem, hblock⟩ ↦ ?_, ?_⟩⟩
      · rcases List.mem_append.mp hmem with hmem | hmem
        · exact Option.mem_toList.mp hmem
        · obtain ⟨k, -, hlater⟩ := hall.exists_block hmem
          have hk := Option.some.inj (hblock.symm.trans hlater)
          omega
      · rintro rfl
        exact ⟨by simp, hfound.block_eq⟩
    | succ k =>
      obtain ⟨issue?, hk, hissues⟩ := ih hb
      have hnumber : n + 1 + k = n + (k + 1) := by omega
      rw [hnumber] at hk hissues
      refine ⟨issue?, ?_, fun issue ↦ ?_⟩
      · rwa [List.take_succ_cons, askedAbout_cons, ← List.append_assoc]
      · rw [← hissues, List.mem_append, and_congr_left_iff]
        refine fun hblock ↦ or_iff_right fun hfirst ↦ ?_
        obtain rfl := Option.mem_toList.mp hfirst
        have hk := Option.some.inj (hfound.block_eq.symm.trans hblock)
        omega

theorem FoundAll.forall_ne_warning (h : FoundAll c asked n bs issues)
    (hclosed : ∀ b ∈ bs, b.isClosed) : ∀ issue ∈ issues, issue.severity ≠ .warning := by
  induction h with
  | nil => simp
  | cons hfound _ ih =>
    rw [List.forall_mem_cons] at hclosed
    intro issue hissue
    rcases List.mem_append.mp hissue with hissue | hissue
    · obtain rfl := Option.mem_toList.mp hissue
      exact hfound.severity_ne_warning hclosed.1
    · exact ih hclosed.2 issue hissue

/-- One block can be left open, so that one warning is given at most. -/
theorem FoundAll.countP_warning (h : FoundAll c asked n bs issues)
    (hclosed : ∀ b ∈ bs.dropLast, b.isClosed) : issues.countP (·.severity = .warning) ≤ 1 := by
  induction h with
  | nil => simp
  | @cons asked n b bs issue? issues hfound hall ih =>
    cases bs with
    | nil =>
      cases hall
      rw [List.append_nil]
      cases issue? with
      | none => simp
      | some issue => exact List.countP_le_length
    | cons b' bs =>
      rw [List.dropLast_cons_cons, List.forall_mem_cons] at hclosed
      have hfirst : issue?.toList.countP (·.severity = .warning) = 0 := by
        rw [List.countP_eq_zero]
        intro issue hissue
        obtain rfl := Option.mem_toList.mp hissue
        simpa using hfound.severity_ne_warning hclosed.1
      rw [List.countP_append, hfirst, Nat.zero_add]
      exact ih hclosed.2

theorem hasIssue_iff
    (h : ∀ issue, issue ∈ issues ∧ issue.block = some k ↔ issue? = some issue) :
    HasIssue issues k s ↔ issue?.map Issue.severity = some s := by
  rw [HasIssue, Option.map_eq_some_iff]
  simp only [← and_assoc, h]

theorem isClosed_of_mem_dropLast (hb : b ∈ (Segment.blocks document).dropLast) : b.isClosed := by
  have hcut := Segment.cut_split document
  rw [Segment.blocks] at hb
  rcases List.eq_nil_or_concat' (Segment.split document) with hnil | ⟨segments, s, hsplit⟩
  · simp [hnil] at hb
  · refine hcut.isClosed_of_mem_dropLast ?_
    have hmem : b ∈ segments.filterMap Segment.block? := by
      rw [hsplit, List.filterMap_append] at hb
      cases s with
      | text t =>
        change b ∈ (segments.filterMap Segment.block? ++ []).dropLast at hb
        rw [List.append_nil] at hb
        exact List.dropLast_subset _ hb
      | diagram b' =>
        change b ∈ (segments.filterMap Segment.block? ++ [b']).dropLast at hb
        rwa [List.dropLast_concat] at hb
    obtain ⟨s', hs', hblock⟩ := List.mem_filterMap.mp hmem
    cases s' with
    | text t => cases hblock
    | diagram b' =>
      obtain rfl := Option.some.inj hblock
      rwa [hsplit, List.dropLast_concat]

theorem isClosed_of_mem_refineBaseline [Nonces] (hdocument : tokenOpen ∉ document)
    (hb : b ∈ Segment.blocks (refineBaseline document)) : b.isClosed := by
  rw [Segment.blocks, split_refineBaseline hdocument, List.filterMap_map, List.mem_filterMap] at hb
  obtain ⟨s, hs, hblock⟩ := hb
  cases s with
  | text t => cases hblock
  | diagram b' =>
    obtain rfl := Option.some.inj hblock
    simpa [Block.isClosed, Block.restore] using isClosed_of_mem_split_closeBlocks hs

/-- The issues are in the order of the blocks: a warning where the block is not closed, which can be
the last one only, an information where it is closed and blank, an error where it is closed, not
blank and rejected, and none where it is accepted. The grammar is asked about the closed blocks that
are not blank, once each and in order. After the baseline no block is left open. -/
theorem issues_validate [Nonces] (c : Checker) (document : Text) (asked : Asked) :
    let blocks := Segment.blocks document
    let issues := ((validate c document).run asked).1
    issues.Pairwise Issue.Before ∧
    (∀ issue ∈ issues, ∃ k < blocks.length, issue.block = some k) ∧
    (∀ b ∈ blocks,
      (b.isClosed ↔ 2 ≤ b.lines.length ∧ ∃ l ∈ b.lines.getLast?, Fence.isClosing l)) ∧
    (∀ k b, blocks[k]? = some b →
      (HasIssue issues k .warning ↔ b.isClosed = false) ∧
      (HasIssue issues k .info ↔ b.isClosed ∧ Text.isAllBlank b.content) ∧
      (HasIssue issues k .error ↔ b.isClosed ∧ Text.isAllBlank b.content = false ∧
        (c.parse (asked ++ askedAbout (blocks.take k)) b.content).accepts = false) ∧
      ((∀ s, ¬ HasIssue issues k s) ↔ b.isClosed ∧ Text.isAllBlank b.content = false ∧
        (c.parse (asked ++ askedAbout (blocks.take k)) b.content).accepts)) ∧
    (∀ b ∈ blocks.dropLast, b.isClosed) ∧ issues.countP (·.severity = .warning) ≤ 1 ∧
    ((validate c document).run asked).2 = asked ++ askedAbout blocks ∧
    (tokenOpen ∉ document → ∀ issue ∈ ((validate c (refineBaseline document)).run asked).1,
      issue.severity ≠ .warning) := by
  intro blocks issues
  obtain ⟨issues', hrun, hall⟩ := run_validateBlocks c 0 blocks asked
  obtain rfl : issues = issues' := congrArg Prod.fst hrun
  refine ⟨hall.pairwise, fun issue hissue ↦ ?_, fun b hb ↦ ?_, fun k b hb ↦ ?_,
    fun _ ↦ isClosed_of_mem_dropLast, hall.countP_warning fun _ ↦ isClosed_of_mem_dropLast,
    congrArg Prod.snd hrun, fun hdocument ↦ ?_⟩
  · simpa using hall.exists_block hissue
  · obtain ⟨s, hs, hblock⟩ := List.mem_filterMap.mp hb
    cases s with
    | text t => cases hblock
    | diagram b' =>
      obtain rfl := Option.some.inj hblock
      exact Segment.isClosed_iff_of_mem_split hs
  · obtain ⟨issue?, hfound, hissues⟩ := hall.getElem? hb
    rw [Nat.zero_add] at hfound hissues
    obtain ⟨hwarning, hinfo, herror, hnone⟩ := hfound.severity_iff
    simp only [hasIssue_iff hissues]
    exact ⟨hwarning, hinfo, herror, by rw [← hnone, Option.eq_none_iff_forall_ne_some]⟩
  · obtain ⟨_, hrun', hall'⟩ :=
      run_validateBlocks c 0 (Segment.blocks (refineBaseline document)) asked
    rw [validate, hrun']
    exact hall'.forall_ne_warning fun _ ↦ isClosed_of_mem_refineBaseline hdocument

section

attribute [local instance] Nonces.zeros

/-- An accepted block, a blank one, a rejected one and one that is left open. The second question is
answered by what was asked before. -/
theorem issues_validate_four :
    let document := Text.of
      "```mermaid\nA\n```\n```mermaid\n \n```\n```mermaid\nA\n```\n```mermaid\nB"
    let c : Checker := ⟨fun asked _ ↦ .ok asked.isEmpty⟩
    let issues := ((validate c document).run []).1
    tokenOpen ∉ document ∧ issues.map Issue.block = [some 1, some 2, some 3] ∧
    (∀ s, ¬ HasIssue issues 0 s) ∧ HasIssue issues 1 .info ∧ HasIssue issues 2 .error ∧
    HasIssue issues 3 .warning ∧
    ((validate c document).run []).2 = [Text.of "A", Text.of "A"] ∧
    ∀ issue ∈ ((validate c (refineBaseline document)).run []).1, issue.severity ≠ .warning := by
  intro document c issues
  have hdocument : tokenOpen ∉ document := by decide
  obtain ⟨-, -, -, hblocks, -, -, hasked, hbaseline⟩ := issues_validate c document []
  have hblock : ∀ k (hk : k < (Segment.blocks document).length),
      (Segment.blocks document)[k]? = some (Segment.blocks document)[k] :=
    fun k hk ↦ List.getElem?_eq_getElem hk
  obtain ⟨-, -, -, hnone⟩ := hblocks 0 _ (hblock 0 (by decide +kernel))
  obtain ⟨-, hinfo, -⟩ := hblocks 1 _ (hblock 1 (by decide +kernel))
  obtain ⟨-, -, herror, -⟩ := hblocks 2 _ (hblock 2 (by decide +kernel))
  obtain ⟨hwarning, -⟩ := hblocks 3 _ (hblock 3 (by decide +kernel))
  exact ⟨hdocument, by decide +kernel, hnone.mpr (by decide +kernel), hinfo.mpr (by decide +kernel),
    herror.mpr (by decide +kernel), hwarning.mpr (by decide +kernel),
    hasked.trans (by decide +kernel), hbaseline hdocument⟩

end

end DiagramRepair
