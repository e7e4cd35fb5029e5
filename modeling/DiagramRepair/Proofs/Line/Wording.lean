import DiagramRepair.Proofs.Line.Settle
import DiagramRepair.Proofs.Text.Wording

namespace DiagramRepair.Line

open Pattern

variable {l t t' : Text}

theorem wording_bracketQuotedFrom (s : QuoteState) (prev : Option Char) (t : Text) :
    wording isLabelMarkup (bracketQuotedFrom s prev t) = wording isLabelMarkup t := by
  have hquote : isLabelMarkup '"' ∧ isLabelMarkup '[' ∧ isLabelMarkup ']' := by decide
  fun_induction bracketQuotedFrom s prev t <;> simp_all [wording, List.filter_cons]

theorem ClosesTails.wording_eq (h : ClosesTails t t') :
    wording isLabelMarkup t' = wording isLabelMarkup t := by
  have hquote : isLabelMarkup '"' ∧ isLabelMarkup '[' ∧ isLabelMarkup ']' := by decide
  induction h with
  | nil => rfl
  | tail _ _ ih => simp_all [wording]
  | keep _ _ ih => rw [wording_cons, ih, ← wording_cons]

theorem wording_cleanLabelTail (l : Text) :
    wording isLabelMarkup (cleanLabelTail l) = wording isLabelMarkup l :=
  (closesTails_cleanLabelTail l).wording_eq

theorem wording_settleLabels (passes : Nat) (l : Text) :
    wording isLabelMarkup (settleLabels passes l) = wording isLabelMarkup l := by
  have hpass : ∀ l, wording isLabelMarkup (settlePass l) = wording isLabelMarkup l := by
    intro l
    rw [settlePass, wording_cleanLabelTail, bracketQuotedLabels, wording_bracketQuotedFrom]
  induction passes generalizing l with
  | zero => rfl
  | succ passes ih => rw [settleLabels_succ, ih, hpass]

theorem wording_fixBrokenEdgeLabels (l : Text) :
    wording isLabelMarkup (fixBrokenEdgeLabels l) = wording isLabelMarkup l := by
  refine (fixBrokenEdgeLabels_edits l).wording_eq fun he ↦ ?_
  obtain ⟨hs, hs'⟩ := he
  have hsigns : wording isLabelMarkup (Text.of "-- \"") = wording isLabelMarkup (Text.of "--") ∧
      wording isLabelMarkup (Text.of "\" -->") = wording isLabelMarkup (Text.of "-->") := by decide
  simp [wording_blank hs, wording_blank hs', wording_wrapping, hsigns]

theorem wording_quoteNestedBracketLabels (l : Text) :
    wording isLabelMarkup (quoteNestedBracketLabels l) = wording isLabelMarkup l := by
  refine (quoteNestedBracketLabels_edits l).wording_eq fun he ↦ ?_
  obtain ⟨hs⟩ := he
  simp [wording_blank hs, wording_wrapping]

theorem wording_quotePipeLabels (l : Text) :
    wording isLabelMarkup (quotePipeLabels l) = wording isLabelMarkup l := by
  refine (Rule.quotePipeLabels_edits l).wording_eq fun he ↦ ?_
  obtain ⟨-, -, -⟩ := he
  have hsigns : wording isLabelMarkup (Text.of "|\"") = wording isLabelMarkup (Text.of "|") ∧
      wording isLabelMarkup (Text.of "\"|") = wording isLabelMarkup (Text.of "|") := by decide
  simp [hsigns]

theorem wording_stripRegion (x : Text) :
    wording isShapeMarkup (stripRegion ('[' :: (x ++ [']']))) =
      wording isShapeMarkup ('[' :: (x ++ [']'])) := by
  have hinside : ('[' :: (x ++ [']'])).tail.dropLast = x := by simp
  have hshape : ∀ c, among "()\x7b\x7d" c → isShapeMarkup c := fun c hc ↦ by
    simp [isShapeMarkup, hc]
  have hinner : wording isShapeMarkup (x.filter fun c ↦ !among "()\x7b\x7d" c) =
      wording isShapeMarkup x := wording_wording hshape x
  simp only [stripRegion, hinside]
  split
  · rfl
  · rw [List.cons_append, wording_cons, wording_append, hinner, ← wording_append, ← wording_cons]

theorem wording_stripStretches {ss : List Stretch} (h : Cuts .square l ss) (prev : Option Char) :
    wording isShapeMarkup (stripStretches prev ss) = wording isShapeMarkup l := by
  induction h generalizing prev with
  | nil => rfl
  | outside _ _ ih => rw [stripStretches, wording_cons, ih, ← wording_cons]
  | @region o c x r ss _ ho hc _ ih =>
    obtain rfl := Brackets.square_opens.mp ho
    obtain rfl := Brackets.square_closes.mp hc
    have hsplit : '[' :: (x ++ ']' :: r) = '[' :: (x ++ [']']) ++ r := by simp
    rw [hsplit, stripStretches, wording_append, wording_append, ih]
    split
    · rw [wording_stripRegion]
    · rfl

theorem wording_stripLabelDecorations (l : Text) :
    wording isShapeMarkup (stripLabelDecorations l) = wording isShapeMarkup l :=
  wording_stripStretches (cuts_ofText .square l) none

/-- Behind the step for comments the normal form keeps every character of the wording. -/
theorem wording_normalize_eq (l : Text) :
    wording isShapeMarkup (normalize l) = wording isShapeMarkup (mergeHashComment l) := by
  rw [normalize]
  generalize mergeHashComment l = l
  have hrepair : wording isLabelMarkup (if hasSubgraph l then l
      else quoteNestedBracketLabels (fixBrokenEdgeLabels (settleLabels maxPasses l))) =
        wording isLabelMarkup l := by
    split
    · rfl
    · rw [wording_quoteNestedBracketLabels, wording_fixBrokenEdgeLabels, wording_settleLabels]
  rw [wording_shape_of_label (wording_cleanLabelTail _), wording_stripLabelDecorations,
    wording_shape_of_label (wording_quotePipeLabels _), wording_shape_of_label hrepair]

/-- A line without such a comment keeps its wording: no label loses text, and none is moved. -/
theorem wording_normalize (h : mergeHashComment l = l) :
    wording isShapeMarkup (normalize l) = wording isShapeMarkup l := by
  rw [wording_normalize_eq, h]

theorem wording_normalize_labels :
    let l := Text.of "A\"one\" -->|no| B[a [b] (c)]; C[\"d[\";"
    mergeHashComment l = l ∧
      normalize l = Text.of "A[\"one\"] -->|\"no\"| B[\"a [b] c\"]; C[\"d\"];" ∧
      wording isShapeMarkup (normalize l) = wording isShapeMarkup l :=
  ⟨by decide, by decide, wording_normalize (by decide)⟩

end DiagramRepair.Line
