import DiagramRepair.Rule.Arrow
import DiagramRepair.Proofs.Rule.Words

namespace DiagramRepair.Rule

open Pattern

def IsInvalidArrow (u : Text) : Prop :=
  u = Text.of "--|>" ∨ (∃ s, u = '-' :: '-' :: (s ++ ['>']) ∧ s ≠ [] ∧ Blank s) ∨
    (∃ c, (c = '\u2014' ∨ c = '\u2013') ∧ u = [c, '>']) ∨ u = Text.of "-->>" ∨ u = Text.of "\u2192"

inductive FixesInvalidArrow : (b u r v : Text) → Prop
  | mk {b u r : Text} (hu : IsInvalidArrow u) : FixesInvalidArrow b u r (Text.of "-->")

/-- Of the invalid arrows only `-- >` can run over the end of a line, and no second tip follows. -/
theorem of_takes_invalidArrowPattern {b u r : Text} {gs : Groups}
    (h : invalidArrowPattern.Takes b u r gs) :
    IsInvalidArrow u ∧ ('\n' ∈ u → r.head? ≠ some '>') := by
  simp only [invalidArrowPattern, takes_or, takes_append_notAhead, takes_append_sign, takes_sign,
    takes_append_blanks1, oneOf, takes_one] at h
  rcases h with (((⟨rfl, -⟩ | ⟨hr, u, rfl, u, s, rfl, ⟨hne, hs⟩, rfl, -⟩) |
    ⟨u, rfl, c, hc, rfl, -⟩) | ⟨rfl, -⟩) | ⟨rfl, -⟩
  · exact ⟨.inl rfl, by simp⟩
  · refine ⟨.inr (.inl ⟨s, by simp, hne, hs⟩), fun _ hhead ↦ hr ?_⟩
    obtain ⟨t, rfl⟩ := List.head?_eq_some_iff.mp hhead
    exact ⟨['>'], t, [], rfl, rfl, rfl⟩
  · have hdash : c = '\u2014' ∨ c = '\u2013' := by simpa [among] using hc
    exact ⟨.inr (.inr (.inl ⟨c, hdash, rfl⟩)), by rcases hdash with rfl | rfl <;> simp⟩
  · exact ⟨.inr (.inr (.inr (.inl rfl))), by simp⟩
  · exact ⟨.inr (.inr (.inr (.inr rfl))), by simp⟩

theorem fixInvalidArrows_edits (content : Text) :
    Edits FixesInvalidArrow [] content (fixInvalidArrows content) := by
  refine edits_replaceAll (by decide) (by decide) (fun m hm ↦ .inr (.mk ?_)) content
  obtain ⟨gs, h, -⟩ := hm
  exact (of_takes_invalidArrowPattern h).1

inductive TurnsEdge : Text → Text → Prop
  | mk {indent left s s' right tail r : Text} (hindent : Blank indent)
    (hleft : IsNodeReference left) (hs : Blank s) (hs' : Blank s') (hright : IsNodeReference right)
    (htail : IsTerminator tail) (hr : r = [] ∨ r = ['\n']) :
    TurnsEdge (indent ++ (left ++ (s ++ (Text.of "<--" ++ (s' ++ (right ++ (tail ++ r)))))))
      (indent ++ (right ++ (Text.of " --> " ++ (left ++ tail))))

theorem takes_reversedEdgePattern {u r : Text} {gs : Groups} :
    reversedEdgePattern.Takes [] u r gs ↔ (r = [] ∨ r = ['\n']) ∧
      ∃ tail right s' s indent left,
        u = indent ++ (left ++ (s ++ (Text.of "<--" ++ (s' ++ (right ++ tail))))) ∧
        gs = [("tail", tail), ("right", right), ("left", left), ("indent", indent)] ∧
        IsTerminator tail ∧ IsNodeReference right ∧ Blank s' ∧ Blank s ∧ IsNodeReference left ∧
          Blank indent := by
  -- No blank and no node starts with the tip of an arrow.
  have hahead : ∀ {s' right x b : Text}, Blank s' → IsNodeReference right →
      ¬ ∃ v w g, s' ++ (right ++ x) = v ++ w ∧ (sign ">").Takes b v w g := by
    rintro s' right x b hs' hright ⟨v, w, g, heq, htakes⟩
    obtain ⟨rfl, -⟩ := takes_sign.mp htakes
    cases s' with
    | nil =>
      rw [List.nil_append] at heq
      exact absurd (hright.isIdentChar_head (c := '>') (by rw [heq]; rfl)) (by decide)
    | cons c s' =>
      have hc := hs' c (by simp)
      obtain ⟨rfl, -⟩ := List.cons.inj heq
      exact absurd hc (by decide)
  simp only [reversedEdgePattern, takes_append_lastLineEnd, takes_append_group, ↓takes_terminator,
    takes_nodeReference, takes_append_blanks, takes_append_notAhead, takes_append_sign,
    takes_blanks, takes_textStart, existsAndEq, and_true, true_and, and_assoc, List.append_assoc,
    List.nil_append]
  refine and_congr_right fun _ ↦ ?_
  constructor
  · rintro ⟨tail, right, s', s, indent, left, hu, hgs, htail, hright, hs', -, hrest⟩
    exact ⟨tail, right, s', s, indent, left, hu, hgs, htail, hright, hs', hrest⟩
  · rintro ⟨tail, right, s', s, indent, left, hu, hgs, htail, hright, hs', hrest⟩
    exact ⟨tail, right, s', s, indent, left, hu, hgs, htail, hright, hs', hahead hs' hright, hrest⟩

theorem turnsEdge_of_match {line : Text} {m : Match}
    (hm : reversedEdgePattern.match? line = some m) : TurnsEdge line (fixReversedEdges line) := by
  obtain ⟨⟨gs, h, hgs⟩, hb, hline⟩ := of_match? (by decide) hm
  obtain ⟨hr, tail, right, s', s, indent, left, hu, rfl, htail, hright, hs', hs, hleft, hindent⟩ :=
    takes_reversedEdgePattern.mp (hb ▸ h)
  rw [fixReversedEdges, hm, hline, hu]
  simp only [Match.group, hgs, List.append_assoc]
  exact .mk hindent hleft hs hs' hright htail hr

theorem fixReversedEdges_cases (line : Text) :
    fixReversedEdges line = line ∨ TurnsEdge line (fixReversedEdges line) := by
  cases hm : reversedEdgePattern.match? line with
  | none => exact .inl (by rw [fixReversedEdges, hm])
  | some m => exact .inr (turnsEdge_of_match hm)

def IsBarText (u : Text) : Prop := (∃ x, u = '"' :: (x ++ ['"'])) ∨ u ≠ [] ∧ '|' ∉ u

inductive MovesPipe : Text → Text → Prop
  | mk {indent label s source s₁ arrow s₂ target s₃ r : Text} (hindent : Blank indent)
    (hlabel : IsBarText label) (hs : Blank s)
    (hsource : source ≠ [] ∧ ∀ c ∈ source, Text.isBlank c = false) (hs₁ : s₁ ≠ [] ∧ Blank s₁)
    (harrow : IsLineArrow arrow) (hs₂ : s₂ ≠ [] ∧ Blank s₂)
    (htarget : target ≠ [] ∧ '\n' ∉ target) (hs₃ : Blank s₃) (hr : r = [] ∨ r = ['\n']) :
    MovesPipe
      (indent ++ (Text.of ">|" ++ (label ++ (Text.of "|" ++ (s ++ (source ++ (s₁ ++ (arrow ++ (s₂ ++
        (target ++ (s₃ ++ r)))))))))))
      (indent ++ (source ++ ' ' :: (arrow ++ '|' :: (label ++ (Text.of "| " ++ target)))))

theorem fixMisplacedPipes_cases (line : Text) :
    fixMisplacedPipes line = line ∨ MovesPipe line (fixMisplacedPipes line) := by
  rw [fixMisplacedPipes]
  split
  · exact .inl rfl
  · rename_i m hm
    obtain ⟨⟨gs, h, hgs⟩, -, hline⟩ := of_match? (by decide) hm
    simp only [misplacedPipePattern, takes_append_lastLineEnd, takes_append_blanks,
      takes_append_group, takes_many1Lazy_any, takes_append_blanks1, ↓takes_lineArrow,
      takes_many1_one, takes_append_sign, takes_blanks, takes_textStart, existsAndEq, and_true,
      true_and, and_assoc, List.append_assoc, List.nil_append] at h
    obtain ⟨hr, s₃, target, s₂, arrow, s₁, source, s, label, g, indent, hu, hs₃, rfl, htarget,
      hline', hs₂', hs₂, harrow, hs₁', hs₁, hsource', hsource, hs, hlabel, hindent, -⟩ := h
    obtain rfl := hlabel.groups_eq_nil (by decide)
    have hbar : IsBarText label := by
      simp only [takes_or, takes_append_sign, noneOf, takes_many1_one] at hlabel
      rcases hlabel with ⟨w, rfl, hw⟩ | ⟨hne, hbar, -⟩
      · obtain ⟨v, x, _, _, rfl, -, hv, -⟩ := takes_append.mp hw
        obtain ⟨rfl, -⟩ := takes_sign.mp hv
        exact .inl ⟨x, rfl⟩
      · exact .inr ⟨hne, fun hmem ↦ absurd (hbar _ hmem) (by decide)⟩
    rw [hline, hu]
    simp only [Match.group, hgs, List.append_assoc]
    exact .inr (.mk hindent hbar hs ⟨hsource', by simpa using hsource⟩ ⟨hs₁', hs₁⟩ harrow
      ⟨hs₂', hs₂⟩ ⟨htarget, hline'⟩ hs₃ hr)

inductive ClosesLabel : (b u r v : Text) → Prop
  | mk {b r : Text} : ClosesLabel b (Text.of " -->\"") r (Text.of "\" -->")

inductive OpensLabel : (b u r v : Text) → Prop
  | mk {b r : Text} : OpensLabel b (Text.of "\"-- ") r (Text.of "--\" ")

theorem closeLabelBeforeArrow_edits (t : Text) :
    Edits ClosesLabel [] t (closeLabelBeforeArrow t) := by
  refine edits_replaceAll (by decide) (by decide) (fun m hm ↦ ?_) t
  obtain ⟨gs, h, -⟩ := hm
  obtain ⟨hu, -⟩ := takes_sign.mp h
  split
  · rw [hu]
    exact .inr .mk
  · exact .inl rfl

theorem openLabelAfterDashes_edits (t : Text) :
    Edits OpensLabel [] t (openLabelAfterDashes t) := by
  refine edits_replaceAll (by decide) (by decide) (fun m hm ↦ ?_) t
  obtain ⟨gs, h, -⟩ := hm
  obtain ⟨hu, -⟩ := takes_sign.mp h
  split
  · exact .inl rfl
  · rw [hu]
    exact .inr .mk

end DiagramRepair.Rule
