import DiagramRepair.Proofs.Repair.Total
import DiagramRepair.Proofs.Rule.Written

namespace DiagramRepair

open Pattern Registry Rule RepairRule

variable {ctx : RepairContext} {rules : List RepairRule} {names : NoteNames} {f : Text → Text}
  {l r t t' t'' content : Text} {ls : List Text} {c : Char}

def WritesLines (t t' : Text) : Prop := Writes ('\n' :: t) t'

theorem Writes.lines (h : Writes t t') : WritesLines t t' :=
  fun c hc ht ↦ h c hc (List.not_mem_of_not_mem_cons ht)

theorem WritesLines.refl (t : Text) : WritesLines t t := (Writes.refl t).lines

theorem WritesLines.trans (h : WritesLines t t') (h' : WritesLines t' t'') : WritesLines t t'' := by
  intro c hc ht
  have hnewline : c ≠ '\n' := List.ne_of_not_mem_cons ht
  exact h' c hc (List.not_mem_cons_of_ne_of_not_mem hnewline (h c hc ht))

theorem WritesLines.not_mem (h : WritesLines t t') (hc : isWritten c = false) (hnewline : c ≠ '\n')
    (ht : c ∉ t) : c ∉ t' :=
  h c hc (List.not_mem_cons_of_ne_of_not_mem hnewline ht)

theorem writesLines_unlines (h : List.Forall₂ WritesLines (Text.lines t) ls) :
    WritesLines t (Text.unlines ls) := by
  intro c hc ht
  obtain ⟨hnewline, ht⟩ := not_or.mp (mt List.mem_cons.mpr ht)
  refine Text.not_mem_unlines hnewline fun l' hl' ↦ ?_
  obtain ⟨l, hl, hwrites⟩ := exists_of_forall₂ h hl'
  exact hwrites.not_mem hc hnewline fun hmem ↦ ht (Text.mem_of_mem_lines hmem hl)

namespace RepairRule

def WritesBlock (ctx : RepairContext) (rule : RepairRule) : Prop :=
  ∀ {names names' : NoteNames} {t t' : Text}, rule.apply ctx names t = .ok (t', names') →
    WritesLines t t'

theorem writesBlock_perLine {name : String} (hf : ∀ l, WritesLines l (f l)) :
    WritesBlock ctx (perLine name f) := by
  intro names names' t t' h
  obtain ⟨rfl, -⟩ := Prod.mk.inj (Except.ok.inj h)
  refine writesLines_unlines ?_
  rw [List.forall₂_map_right_iff, List.forall₂_same]
  exact fun l _ ↦ hf l

theorem writesBlock_of_writes {name : String} (hf : ∀ l, Writes l (f l)) :
    WritesBlock ctx (perLine name f) :=
  writesBlock_perLine fun l ↦ (hf l).lines

theorem writesBlock_onFlowcharts {name : String}
    {g : RepairContext → NoteNames → Text → Text × NoteNames}
    (hg : ∀ names t, WritesLines t (g ctx names t).1) :
    WritesBlock ctx (onFlowcharts name g) := fun h ↦ rel_of_onFlowcharts .refl hg h

theorem writesBlock_convertNoteDirectives : WritesBlock ctx convertNoteDirectives := by
  refine writesBlock_onFlowcharts fun names t c hc ht ↦ ?_
  obtain ⟨hnewline, ht⟩ := not_or.mp (mt List.mem_cons.mpr ht)
  refine Text.not_mem_unlines hnewline ?_
  exact not_mem_convertNoteLines ctx.ids.ids names hc (by simp) fun l hl hmem ↦
    ht (Text.mem_of_mem_lines hmem hl)

theorem writesBlock_splitConcatenatedLabels (hids : ∀ id ∈ ctx.ids.ids, id ≠ []) :
    WritesBlock ctx splitConcatenatedLabels := by
  intro names names' t t' h
  obtain ⟨ls, rfl, hlines⟩ := exists_of_splitConcatenatedLabels hids h
  exact writesLines_unlines (hlines.imp fun _ _ h ↦ (writes_of_cases writes_splitsTarget h).lines)

theorem writesLines_mergeTrailingComments {names' : NoteNames} (ht : EscapesHidden t)
    (h : mergeTrailingComments.apply ctx names t = .ok (t', names')) : WritesLines t t' := by
  obtain ⟨ls, rfl, hlines⟩ := exists_of_mergeTrailingComments ht h
  exact writesLines_unlines (hlines.imp fun _ _ h ↦ (writes_of_cases writes_mergesComment h).lines)

theorem writesBlock_splitIntermediateNodes {name : String} :
    WritesBlock ctx (perLine name splitIntermediateNodes) := by
  refine writesBlock_perLine fun l ↦ ?_
  rcases splitIntermediateNodes_cases l with h | h
  · rw [h]
    exact .refl l
  · exact writes_splitsEdge h

def WritesLine (rule : RepairRule) : Prop :=
  ∃ name f, rule = perLine name f ∧ ∀ l, Writes l (f l)

theorem writesLine_perLine {name : String} (hf : ∀ l, Writes l (f l)) :
    (perLine name f).WritesLine := ⟨name, f, rfl, hf⟩

theorem WritesLine.writesBlock {rule : RepairRule} (h : rule.WritesLine) :
    WritesBlock ctx rule := by
  obtain ⟨name, f, rfl, hf⟩ := h
  exact writesBlock_of_writes hf

/-- The rules that come before comments are merged. -/
theorem writesLine_of_mem_take [Nonces] : ∀ rule ∈ RepairRule.all.take 4, rule.WritesLine := by
  simp only [RepairRule.all, List.take_succ_cons, List.take_zero, List.forall_mem_cons]
  exact ⟨writesLine_perLine writes_stripBracketMarks, writesLine_perLine writes_removeEmptyLabels,
    writesLine_perLine writes_straightenQuotes, writesLine_perLine writes_stripInnerQuotes, by simp⟩

/-- The rules that come after the arrows are fixed; those that are more than a change of single
lines into single lines are given by name. -/
theorem cases_of_mem_drop [Nonces] : ∀ rule ∈ RepairRule.all.drop 6, rule.WritesLine ∨
    rule = convertNoteDirectives ∨
      rule = perLine "split_intermediate_nodes" splitIntermediateNodes ∨
        rule = splitConcatenatedLabels := by
  simp only [RepairRule.all, List.drop_succ_cons, List.drop_zero, List.forall_mem_cons]
  refine ⟨?_, ?_, .inl (writesLine_perLine writes_fixMalformedArrowLabels),
    ?_, ?_, ?_, ?_, ?_, ?_, .inr (.inl trivial), .inr (.inr (.inl trivial)),
    .inr (.inr (.inr trivial)), ?_, .inl (writesLine_perLine writes_fixExcessiveBrackets),
    ?_, ?_, by simp⟩ <;>
    refine .inl (writesLine_perLine fun l ↦ ?_)
  · exact writes_of_cases writes_turnsEdge (fixReversedEdges_cases l)
  · exact writes_of_cases writes_movesPipe (fixMisplacedPipes_cases l)
  · exact writes_of_cases writes_relocatesLabel (relocateTrailingLabels_cases l)
  · exact writes_of_edits writes_convertsGroup (convertGroupLabels_edits l)
  · exact (writes_of_edits writes_mergesLabels (mergeSeparatedLabels_edits l)).trans
      (writes_of_edits writes_mergesLabels (mergePipeLabels_edits _))
  · exact writes_of_edits writes_promotesDash (promoteDoubleDash_edits l)
  · exact writes_of_edits writes_quotesBarLabel (quotePipeLabels_edits l)
  · exact writes_of_edits writes_quotesEdgeLabel (quoteEdgeLabels_edits l)
  · exact writes_of_edits writes_wrapsLabel (wrapMissingBrackets_edits l)
  · exact writes_of_edits writes_collapsesLabels (collapseDuplicateLabels_edits l)
  · exact writes_of_edits writes_quotesLabel (quoteUnsafeNodeLabels_edits l)

theorem writesBlock_of_mem_take [Nonces] (rule : RepairRule) (h : rule ∈ RepairRule.all.take 4) :
    WritesBlock ctx rule := (writesLine_of_mem_take rule h).writesBlock

/-- The rules that come after comments are merged. -/
theorem writesBlock_of_mem_drop [Nonces] (hids : ∀ id ∈ ctx.ids.ids, id ≠ []) :
    ∀ rule ∈ RepairRule.all.drop 5, WritesBlock ctx rule := by
  have hall : RepairRule.all.drop 5 = RepairRule.fixInvalidArrows :: RepairRule.all.drop 6 := rfl
  rw [hall, List.forall_mem_cons]
  refine ⟨writesBlock_onFlowcharts fun _ t ↦ (writes_fixInvalidArrows t).lines, fun rule hrule ↦ ?_⟩
  rcases cases_of_mem_drop rule hrule with h | rfl | rfl | rfl
  · exact h.writesBlock
  · exact writesBlock_convertNoteDirectives
  · exact writesBlock_splitIntermediateNodes
  · exact writesBlock_splitConcatenatedLabels hids

end RepairRule

theorem writesLines_applyRules [Nonces] {names' : NoteNames} (hids : ∀ id ∈ ctx.ids.ids, id ≠ [])
    (ht : EscapesHidden t) (h : applyRules ctx RepairRule.all names t = .ok (t', names')) :
    WritesLines t t' := by
  have hall : RepairRule.all =
      RepairRule.all.take 4 ++ RepairRule.mergeTrailingComments :: RepairRule.all.drop 5 := rfl
  rw [hall] at h
  obtain ⟨t₁, names₁, hbefore, h⟩ := of_applyRules_append h
  obtain ⟨t₂, names₂, hmerge, hafter⟩ := of_applyRules_cons h
  have ht₁ : EscapesHidden t₁ := of_applyRules spares_of_mem_take ht hbefore
  have hcleaned : WritesLines t t₁ :=
    rel_of_applyRules .refl (fun h h' ↦ h.trans h') (fun _ ↦ writesBlock_of_mem_take _) hbefore
  have hmerged : WritesLines t₁ t₂ := writesLines_mergeTrailingComments ht₁ hmerge
  have hrepaired : WritesLines t₂ t' :=
    rel_of_applyRules .refl (fun h h' ↦ h.trans h') (fun _ ↦ writesBlock_of_mem_drop hids _) hafter
  exact (hcleaned.trans hmerged).trans hrepaired

/-- A repaired block holds no character that the block does not hold, but for printable ASCII and
what tokens and lines end with. -/
theorem writesLines_repair [Nonces] (h : repair content = .ok r) : WritesLines content r := by
  have hhidden : Writes content (hideEscapes content).1 :=
    writes_hideMatches (by decide) (by decide) (by decide) content
  rw [repair] at h
  simp only at h
  cases hrun : applyRules (.ofContent (hideEscapes content).1) RepairRule.all {}
    (hideEscapes content).1 with
  | error fault =>
    rw [hrun] at h
    cases h
  | ok result =>
    obtain ⟨t, names⟩ := result
    rw [hrun] at h
    obtain rfl : (hideEscapes content).2.restore t = r := Except.ok.inj h
    have hrules : WritesLines (hideEscapes content).1 t :=
      writesLines_applyRules (fun id hid ↦ (IdSet.isIdent_of_mem_harvest hid).1)
        (fun l hl ↦ backslashAtEnd_hideEscapes hl) hrun
    intro c hc hcontent
    refine not_mem_restore (fun u hu hmem ↦ ?_) ((hhidden.lines.trans hrules) c hc hcontent)
    rcases Part.mem_pieces_conceal hu with hu | hu
    · simp [fresh] at hu
    · exact hcontent (List.mem_cons_of_mem _ ((exists_of_hidden_escape hu).1.subset hmem))

end DiagramRepair
