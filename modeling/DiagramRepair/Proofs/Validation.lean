import DiagramRepair.Proofs.Batch.Document
import DiagramRepair.Proofs.Block.Closed
import DiagramRepair.Validation

namespace DiagramRepair

variable {f : Text → Verdict} {document t : Text} {asked : Asked} {issue : Issue}

theorem run_countRejected (f : Text → Verdict) (ts : List Text) (asked : Asked) :
    ((Checker.ofFunction f).countRejected ts).run asked =
      (ts.countP fun t ↦ !(f t).accepts, asked ++ ts) := by
  induction ts generalizing asked with
  | nil => exact congrArg (Prod.mk _) (List.append_nil asked).symm
  | cons t ts ih =>
    have hask : ((Checker.ofFunction f).accepts t).run asked =
      ((f t).accepts, asked ++ [t]) := rfl
    rw [Checker.countRejected, StateT.run_bind, hask]
    change (fun p : Nat × Asked ↦ (if (f t).accepts then p.1 else p.1 + 1, p.2))
      (((Checker.ofFunction f).countRejected ts).run (asked ++ [t])) = _
    rw [ih, List.countP_cons]
    cases (f t).accepts <;> simp

theorem run_countInvalid (f : Text → Verdict) (document : Text) (asked : Asked) :
    ((Checker.ofFunction f).countInvalid document).run asked =
      ((closedBlocks document).countP fun t ↦ !(f t).accepts, asked ++ closedBlocks document) :=
  run_countRejected f _ asked

def Block.Rejected (f : Text → Verdict) (b : Block) : Prop :=
  b.isClosed ∧ Text.isAllBlank b.content = false ∧ (f b.content).accepts = false

theorem rejected_of_validateBlock {index : Nat} {b : Block}
    (h : issue ∈ ((validateBlock (.ofFunction f) index b).run asked).1)
    (herror : issue.severity = .error) : b.Rejected f := by
  have hask : ((Checker.ofFunction f).accepts b.content).run asked =
    ((f b.content).accepts, asked ++ [b.content]) := rfl
  rw [validateBlock] at h
  cases hclosed : b.isClosed with
  | false =>
    simp only [hclosed, Bool.not_false, if_true] at h
    obtain rfl := Option.some.inj h
    cases herror
  | true =>
    simp only [hclosed, Bool.not_true, Bool.false_eq_true, if_false] at h
    cases hblank : Text.isAllBlank b.content with
    | true =>
      simp only [hblank, if_true] at h
      obtain rfl := Option.some.inj h
      cases herror
    | false =>
      simp only [hblank, Bool.false_eq_true, if_false, StateT.run_bind, hask] at h
      refine ⟨hclosed, hblank, Bool.eq_false_iff.mpr fun haccepts ↦ ?_⟩
      rw [haccepts] at h
      cases h

theorem exists_rejected {bs : List Block} {index : Nat}
    (h : issue ∈ ((validateBlocks (.ofFunction f) index bs).run asked).1)
    (herror : issue.severity = .error) : ∃ b ∈ bs, b.Rejected f := by
  induction bs generalizing index asked with
  | nil => cases h
  | cons b bs ih =>
    rw [validateBlocks, StateT.run_bind] at h
    change issue ∈ ((validateBlock (.ofFunction f) index b).run asked).1.toList ++
      ((validateBlocks (.ofFunction f) (index + 1) bs).run
        ((validateBlock (.ofFunction f) index b).run asked).2).1 at h
    rcases List.mem_append.mp h with h | h
    · exact ⟨b, by simp, rejected_of_validateBlock (Option.mem_toList.mp h) herror⟩
    · obtain ⟨b', hb', hrejected⟩ := ih h
      exact ⟨b', by simp [hb'], hrejected⟩

theorem countInvalid_pos (hcounted : ∀ s ∈ Segment.split document, s.Counted) {b : Block}
    (hb : b ∈ Segment.blocks document) (hrejected : b.Rejected f) (asked : Asked) :
    0 < (((Checker.ofFunction f).countInvalid document).run asked).1 := by
  rw [run_countInvalid, List.countP_pos_iff]
  exact ⟨b.content, mem_closedBlocks hcounted hb hrejected.1, by simp [hrejected.2.2]⟩

theorem skipped_eq_false [Nonces] {rules : BatchRules} {s : BatchState} {path : Path} {r : FileRepair}
    (hdocument : s.files.readText path = .ok document)
    (hcount : 0 < ((rules.checker.countInvalid document).run s.asked).1)
    (h : ((rules.fixFile path).run s).1 = .ok r) : r.skipped = false := by
  have hrun : (rules.fixFile path).run s = (.ok r, ((rules.fixFile path).run s).2) :=
    Prod.ext h rfl
  generalize ((rules.fixFile path).run s).2 = s' at hrun
  cases BatchRules.fixRun_of_run hrun with
  | skipped hread hbefore =>
    obtain rfl := Except.ok.inj (hdocument.symm.trans hread)
    rw [hbefore] at hcount
    exact absurd hcount (Nat.lt_irrefl 0)
  | kept | written => rfl

/-- Where the fences are read in the same way, a document with an error has an invalid block, so a
batch repairs it. -/
theorem countInvalid_pos_of_error [Nonces] (hcounted : ∀ s ∈ Segment.split document, s.Counted)
    (herror : ∃ issue ∈ ((validate (.ofFunction f) document).run asked).1,
      issue.severity = .error) :
    (∀ asked, 0 < (((Checker.ofFunction f).countInvalid document).run asked).1) ∧
    ∀ (rules : BatchRules) (path : Path) (s : BatchState) (r : FileRepair),
      rules.checker = .ofFunction f → s.files.readText path = .ok document →
      ((rules.fixFile path).run s).1 = .ok r → r.skipped = false := by
  obtain ⟨issue, hissue, hseverity⟩ := herror
  obtain ⟨b, hb, hrejected⟩ := exists_rejected hissue hseverity
  have hpos := countInvalid_pos hcounted hb hrejected
  refine ⟨hpos, fun rules path s r hchecker hdocument h ↦ ?_⟩
  exact skipped_eq_false hdocument (hchecker ▸ hpos s.asked) h

section

attribute [local instance] Nonces.zeros

theorem countInvalid_pos_of_error_rejected :
    let document := Text.of "~~~mermaid\nA\n~~~\n ```mermaid\nBROKEN\n```\n```mermaid\nA"
    let f : Text → Verdict := fun t ↦ .ok (t != Text.of "BROKEN")
    (∀ s ∈ Segment.split document, s.Counted) ∧
    (∃ issue ∈ ((validate (.ofFunction f) document).run []).1, issue.severity = .error) ∧
    0 < (((Checker.ofFunction f).countInvalid document).run []).1 := by
  intro document f
  have hcounted : ∀ s ∈ Segment.split document, s.Counted := by decide +kernel
  have herror : ∃ issue ∈ ((validate (.ofFunction f) document).run []).1,
    issue.severity = .error := by decide +kernel
  exact ⟨hcounted, herror, (countInvalid_pos_of_error hcounted herror).1 []⟩

end

/-- The closing fence of an empty block counts as a line of the block, which then goes on to the
opening of the next one. -/
theorem countInvalid_eq_zero_after_empty_block :
    let document := Text.of "```mermaid\n```\n```mermaid\nBROKEN\n```"
    let c : Checker := .ofFunction fun t ↦ .ok (t != Text.of "BROKEN")
    (∃ issue ∈ ((validate c document).run []).1, issue.severity = .error) ∧
    ((c.countInvalid document).run []).1 = 0 := by
  decide +kernel

end DiagramRepair
