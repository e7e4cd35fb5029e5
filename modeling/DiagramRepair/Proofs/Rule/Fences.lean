import DiagramRepair.Proofs.Block.Fence
import DiagramRepair.Proofs.Rule.Written

namespace DiagramRepair

open Pattern Registry Rule

variable {P : Text → Prop} {E : (b u r v : Text) → Prop} {f : Text → Text}
  {b l l' l'' r s t t' t'' u v w : Text} {ls ls' done done' : List Text} {c : Char}

def isFenceChar (c : Char) : Bool := Text.isBlank c || c == '`'

def Bare (l : Text) : Prop := ∀ c ∈ l, isFenceChar c

theorem bare_of_isClosing (h : Fence.isClosing l) : Bare l := by
  obtain ⟨s, s', rfl, hs, hs'⟩ := Fence.isClosing_iff.mp h
  have hblank : ∀ c, Text.isBlank c → isFenceChar c := fun c hc ↦ by simp [isFenceChar, hc]
  have hfence : ∀ c ∈ Fence.closing, isFenceChar c := by decide
  intro c hc
  simp only [List.mem_append] at hc
  rcases hc with hc | hc | hc
  · exact hblank c (hs c hc)
  · exact hfence c hc
  · exact hblank c (hs' c hc)

theorem Bare.not_mem (h : Bare l) (hc : isFenceChar c = false) : c ∉ l :=
  not_mem_of_class h hc

def KeepsLines (P : Text → Prop) (t t' : Text) : Prop := ∀ l ∈ Text.lines t', P l → l ∈ Text.lines t

theorem KeepsLines.refl (P : Text → Prop) (t : Text) : KeepsLines P t t := fun _ hl _ ↦ hl

theorem KeepsLines.trans (h : KeepsLines P t t') (h' : KeepsLines P t' t'') : KeepsLines P t t'' :=
  fun l hl hP ↦ h l (h' l hl hP) hP

/-- Where every stretch that is put in holds a character that keeps its line from having the
property, no other line changes. -/
theorem keepsLines_of_edits
    (hE : ∀ {b u r v}, E b u r v → '\n' ∉ v ∧ ∃ c ∈ v, ∀ l, P l → c ∉ l) (h : Edits E b t t') :
    KeepsLines P t t' := by
  suffices hprefix : ∀ p, KeepsLines P (p ++ t) (p ++ t') from hprefix []
  induction h with
  | nil => exact fun p ↦ .refl P _
  | @keep _ _ _ c _ ih => exact fun p ↦ by simpa using ih (p ++ [c])
  | @edit b u r v r' he _ ih =>
    intro p l hl hP
    obtain ⟨hv, c, hc, hmark⟩ := hE he
    have hrest : l ∈ Text.lines (p ++ (v ++ r)) := by
      simpa using ih (p ++ v) l (by simpa using hl) hP
    exact Text.mem_lines_of_not_mem hv hc (hmark l hP) hrest

/-- What is put in for a stretch holds a character that no closing fence holds, and runs over the
end of a line only if the stretch did. -/
structure LeavesMark (u v : Text) : Prop where
  mark : ∃ c ∈ v, isFenceChar c = false
  line : '\n' ∉ u → '\n' ∉ v

/-- The line is bare after the change only if nothing was changed. -/
structure BareKept (l l' : Text) : Prop where
  eq_self : Bare l' → l' = l
  line : '\n' ∉ l → '\n' ∉ l'

theorem BareKept.refl (l : Text) : BareKept l l := ⟨fun _ ↦ rfl, id⟩

theorem BareKept.trans (h : BareKept l l') (h' : BareKept l' l'') : BareKept l l'' where
  eq_self hbare := by
    obtain rfl := h'.eq_self hbare
    exact h.eq_self hbare
  line hl := h'.line (h.line hl)

theorem Writes.leavesMark (h : Writes u v) (hc : c ∈ v) (hmark : isFenceChar c = false) :
    LeavesMark u v :=
  ⟨⟨c, hc, hmark⟩, h.newline_not_mem⟩

theorem LeavesMark.bareKept (h : LeavesMark l l') : BareKept l l' where
  eq_self hbare := by
    obtain ⟨c, hc, hmark⟩ := h.mark
    exact absurd hc (hbare.not_mem hmark)
  line := h.line

theorem bareKept_of_cases (h : l' = l ∨ LeavesMark l l') : BareKept l l' := by
  rcases h with rfl | h
  · exact .refl l'
  · exact h.bareKept

theorem bareKept_of_edits (hE : ∀ {b u r v}, E b u r v → LeavesMark u v) (h : Edits E b l l') :
    BareKept l l' := by
  induction h with
  | nil => exact .refl []
  | @keep _ _ _ c _ ih =>
    refine ⟨fun hbare ↦ ?_, fun hl ↦ ?_⟩
    · rw [ih.eq_self fun d hd ↦ hbare d (List.mem_cons_of_mem c hd)]
    · rw [List.mem_cons, not_or] at hl ⊢
      exact ⟨hl.1, ih.line hl.2⟩
  | edit he _ ih =>
    refine ⟨fun hbare ↦ ?_, fun hl ↦ ?_⟩
    · obtain ⟨c, hc, hmark⟩ := (hE he).mark
      exact absurd (List.mem_append_left _ hc) (hbare.not_mem hmark)
    · rw [List.mem_append, not_or] at hl ⊢
      exact ⟨(hE he).line hl.1, ih.line hl.2⟩

def FenceFree (l t : Text) : Prop := ∀ x ∈ Text.lines t, Bare x → x = l

theorem BareKept.fenceFree (h : BareKept l l') (hl : '\n' ∉ l) : FenceFree l l' := by
  intro x hx hbare
  rw [Text.lines_of_not_mem (h.line hl), List.mem_singleton] at hx
  rw [hx] at hbare ⊢
  exact h.eq_self hbare

theorem keepsLines_unlines
    (h : List.Forall₂ (fun l l' ↦ '\n' ∉ l → FenceFree l l') (Text.lines t) ls) :
    KeepsLines Bare t (Text.unlines ls) := by
  have hls : ls ≠ [] := by
    rintro rfl
    exact Text.lines_ne_nil t (List.forall₂_nil_right_iff.mp h)
  intro x hx hbare
  rw [Text.lines_unlines_flatMap hls, List.mem_flatMap] at hx
  obtain ⟨l', hl', hx⟩ := hx
  obtain ⟨l, hl, hfree⟩ := exists_of_forall₂ h hl'
  rwa [hfree (Text.newline_not_mem_of_mem_lines hl) x hx hbare]

theorem keepsLines_mapLines (hf : ∀ l, '\n' ∉ l → FenceFree l (f l)) (t : Text) :
    KeepsLines Bare t (Text.mapLines f t) := by
  refine keepsLines_unlines ?_
  rw [List.forall₂_map_right_iff, List.forall₂_same]
  exact fun l _ ↦ hf l

theorem bareKept_straightenQuotes (l : Text) : BareKept l (straightenQuotes l) where
  eq_self hbare := by
    refine (List.map_congr_left fun c hc ↦ ?_).trans (List.map_id l)
    have hfence : isFenceChar (straightQuote c) := hbare _ (List.mem_map_of_mem hc)
    rcases straightQuote_cases c with h | h | h
    · exact h
    · rw [h] at hfence
      exact absurd hfence (by decide)
    · rw [h] at hfence
      exact absurd hfence (by decide)
  line := (writes_straightenQuotes l).newline_not_mem

theorem leavesMark_dropsInnerQuotes (he : DropsInnerQuotes b u r v) : LeavesMark u v := by
  refine (writes_dropsInnerQuotes he).leavesMark (c := '[') ?_ (by decide)
  obtain ⟨-⟩ := he
  simp

theorem bareKept_stripInnerQuotes (l : Text) : BareKept l (stripInnerQuotes l) :=
  bareKept_of_edits leavesMark_dropsInnerQuotes (stripInnerQuotes_edits l)

theorem leavesMark_turnsEdge (h : TurnsEdge l l') : LeavesMark l l' := by
  refine (writes_turnsEdge h).leavesMark (c := '-') ?_ (by decide)
  obtain ⟨-, -, -, -, -, -, -⟩ := h
  simp [Text.of]

theorem bareKept_fixReversedEdges (l : Text) : BareKept l (fixReversedEdges l) :=
  bareKept_of_cases ((fixReversedEdges_cases l).imp_right leavesMark_turnsEdge)

theorem leavesMark_movesPipe (h : MovesPipe l l') : LeavesMark l l' := by
  refine (writes_movesPipe h).leavesMark (c := '|') ?_ (by decide)
  obtain ⟨-, -, -, -, -, -, -, -, -, -⟩ := h
  simp [Text.of]

theorem bareKept_fixMisplacedPipes (l : Text) : BareKept l (fixMisplacedPipes l) :=
  bareKept_of_cases ((fixMisplacedPipes_cases l).imp_right leavesMark_movesPipe)

theorem leavesMark_closesLabel (he : ClosesLabel b u r v) : LeavesMark u v := by
  refine (writes_closesLabel he).leavesMark (c := '-') ?_ (by decide)
  obtain ⟨-⟩ := he
  decide

theorem leavesMark_opensLabel (he : OpensLabel b u r v) : LeavesMark u v := by
  refine (writes_opensLabel he).leavesMark (c := '-') ?_ (by decide)
  obtain ⟨-⟩ := he
  decide

def IsMarkedPiece (v : Text) : Prop := '\n' ∉ v ∧ ∃ c ∈ v, isFenceChar c = false

theorem IsMarkedPiece.leavesMark (hv : IsMarkedPiece v) (u : Text) : LeavesMark u v :=
  ⟨hv.2, fun _ ↦ hv.1⟩

theorem isMarkedPiece_token {T : Text → Prop} (hT : TokenLike T) (hu : T u) : IsMarkedPiece u := by
  have hnewline : '\n' ∉ u := hT.not_mem hu (by decide)
  obtain ⟨w, rfl, -⟩ := hT u hu
  exact ⟨hnewline, tokenOpen, by simp, by decide⟩

theorem isMarkedPiece_shaped {rows : Registry} (hr : rows.Proper) {d : Text}
    (hd : ∀ c ∈ d, Text.isDecimalDigit c) : IsMarkedPiece (rows.shaped d) := by
  refine ⟨?_, tokenOpen, by simp [shaped], by decide⟩
  have hstem : '\n' ∉ rows.stem := not_mem_of_class hr.stem (by decide)
  have hdigits : '\n' ∉ d := not_mem_of_class hd (by decide)
  simp only [shaped, List.mem_cons, List.mem_append, List.not_mem_nil, or_false, not_or]
  exact ⟨by decide, hstem, hdigits, by decide⟩

/-- Restoring puts in pieces of the registry, and leaves what has only the form of its tokens. -/
theorem edits_restore {rows : Registry} (hr : rows.Proper)
    (hpieces : ∀ u ∈ rows.pieces, IsMarkedPiece u) (b t : Text) :
    Edits (fun _ _ _ v ↦ IsMarkedPiece v) b t (rows.restore t) := by
  have hrestored := restored_restore rows t
  generalize rows.restore t = t' at hrestored
  induction hrestored generalizing b with
  | nil => exact .nil b
  | keep _ _ ih => exact .keep (ih _)
  | @piece d v t t' hne hd hv _ ih =>
    refine .edit ?_ (ih _)
    have hshaped := isMarkedPiece_shaped hr hd
    rw [hv]
    split
    · cases hpiece : rows.pieces[digitsValue d]? with
      | none => exact hshaped
      | some u => exact hpieces u (Array.mem_of_getElem? hpiece)
    · exact hshaped

theorem bareKept_fixMalformedArrowLabels [Nonces] (hl : '\n' ∉ l) :
    BareKept l (fixMalformedArrowLabels l) := by
  obtain ⟨hproper, -⟩ := hideBracketRegions_registry l
  have htext : ((Stretch.ofText .square l).map Stretch.toPart).flatMap Part.text = l := by
    rw [List.flatMap_map]
    simpa only [text_toPart] using (cuts_ofText .square l).flatMap_text
  have hhidden : BareKept l (hideBracketRegions l).1 := by
    have hedits : Edits (fun _ _ _ v ↦ IsMarkedPiece v) []
        (((Stretch.ofText .square l).map Stretch.toPart).flatMap Part.text)
        (hideBracketRegions l).1 :=
      Part.edits_conceal (fun _ v _ hv ↦ isMarkedPiece_token (tokenLike_issued hproper) hv) []
    rw [htext] at hedits
    exact bareKept_of_edits (fun he ↦ he.leavesMark _) hedits
  have hpieces : ∀ u ∈ (hideBracketRegions l).2.pieces, IsMarkedPiece u := by
    intro u hu
    rcases Part.mem_pieces_conceal hu with hu | hu
    · simp [fresh] at hu
    · obtain ⟨s, r, x, hline, rfl⟩ := exists_of_hidden_region hu
      rw [hline, List.mem_append, List.mem_append, not_or, not_or] at hl
      exact ⟨hl.2.1, '[', by simp, by decide⟩
  rw [fixMalformedArrowLabels]
  split
  · exact .refl l
  · have hclosed := bareKept_of_edits leavesMark_closesLabel
      (closeLabelBeforeArrow_edits (hideBracketRegions l).1)
    have hopened := bareKept_of_edits leavesMark_opensLabel
      (openLabelAfterDashes_edits (closeLabelBeforeArrow (hideBracketRegions l).1))
    exact ((hhidden.trans hclosed).trans hopened).trans
      (bareKept_of_edits (fun he ↦ he.leavesMark _) (edits_restore hproper hpieces [] _))

theorem leavesMark_relocatesLabel (h : RelocatesLabel l l') : LeavesMark l l' := by
  refine (writes_relocatesLabel h).leavesMark (c := '"') ?_ (by decide)
  obtain ⟨-, -, -, -, -, -, -, -⟩ := h
  simp [Text.of]

theorem bareKept_relocateTrailingLabels (l : Text) : BareKept l (relocateTrailingLabels l) :=
  bareKept_of_cases ((relocateTrailingLabels_cases l).imp_right leavesMark_relocatesLabel)

theorem leavesMark_convertsGroup (he : ConvertsGroup b u r v) : LeavesMark u v := by
  refine (writes_convertsGroup he).leavesMark (c := '-') ?_ (by decide)
  cases he <;> simp [Text.of]

theorem bareKept_convertGroupLabels (l : Text) : BareKept l (convertGroupLabels l) :=
  bareKept_of_edits leavesMark_convertsGroup (convertGroupLabels_edits l)

theorem leavesMark_mergesLabels (he : MergesLabels b u r v) : LeavesMark u v := by
  refine (writes_mergesLabels he).leavesMark (c := '-') ?_ (by decide)
  cases he <;> simp [Text.of]

theorem bareKept_mergeDoubleLabels (l : Text) : BareKept l (mergeDoubleLabels l) :=
  (bareKept_of_edits leavesMark_mergesLabels (mergeSeparatedLabels_edits l)).trans
    (bareKept_of_edits leavesMark_mergesLabels (mergePipeLabels_edits _))

theorem leavesMark_promotesDash (he : PromotesDash b u r v) : LeavesMark u v := by
  refine (writes_promotesDash he).leavesMark (c := '-') ?_ (by decide)
  obtain ⟨-, -, -, -, -⟩ := he
  simp [Text.of]

theorem bareKept_promoteDoubleDash (l : Text) : BareKept l (promoteDoubleDash l) :=
  bareKept_of_edits leavesMark_promotesDash (promoteDoubleDash_edits l)

theorem leavesMark_quotesBarLabel (he : QuotesBarLabel b u r v) : LeavesMark u v := by
  refine (writes_quotesBarLabel he).leavesMark (c := '|') ?_ (by decide)
  obtain ⟨-, -, -⟩ := he
  simp [Text.of]

theorem bareKept_quotePipeLabels (l : Text) : BareKept l (Line.quotePipeLabels l) :=
  bareKept_of_edits leavesMark_quotesBarLabel (quotePipeLabels_edits l)

theorem leavesMark_quotesEdgeLabel (he : QuotesEdgeLabel b u r v) : LeavesMark u v := by
  refine (writes_quotesEdgeLabel he).leavesMark (c := '-') ?_ (by decide)
  obtain ⟨-, -, -, -, -⟩ := he
  simp [Text.of]

theorem bareKept_quoteEdgeLabels (l : Text) : BareKept l (quoteEdgeLabels l) :=
  bareKept_of_edits leavesMark_quotesEdgeLabel (quoteEdgeLabels_edits l)

/-- Both lines that a split edge becomes hold an arrow. -/
theorem fenceFree_splitsEdge (h : SplitsEdge l l') (hl : '\n' ∉ l) : FenceFree l l' := by
  obtain ⟨-, -, -, -, -, -, harrow, -, -, -, -⟩ := h
  rename_i indent source s s₁ middle s₂ arrow s₃ target s₄ e
  simp only [List.mem_append, not_or] at hl
  obtain ⟨hindent, hsource, -, -, -, hmiddle, -, hnewline, -, htarget, -⟩ := hl
  have hfirst : '\n' ∉ indent ++ (source ++ (Text.of " --> " ++ middle)) := by
    simp only [List.mem_append, not_or]
    exact ⟨hindent, hsource, by decide, hmiddle⟩
  have hsecond : '\n' ∉ indent ++ (middle ++ ' ' :: (arrow ++ ' ' :: target)) := by
    simp only [List.mem_append, List.mem_cons, not_or]
    exact ⟨hindent, hmiddle, by decide, hnewline, by decide, htarget⟩
  have hlines : Text.lines (indent ++ (source ++ (Text.of " --> " ++ (middle ++
      '\n' :: (indent ++ (middle ++ ' ' :: (arrow ++ ' ' :: target))))))) =
      [indent ++ (source ++ (Text.of " --> " ++ middle)),
        indent ++ (middle ++ ' ' :: (arrow ++ ' ' :: target))] := by
    have hcut := Text.lines_cons_newline hfirst
      (indent ++ (middle ++ ' ' :: (arrow ++ ' ' :: target)))
    rw [Text.lines_of_not_mem hsecond] at hcut
    simpa using hcut
  have hdash : '-' ∈ arrow := by rcases harrow with rfl | rfl <;> decide
  intro x hx hbare
  have hno : '-' ∉ x := hbare.not_mem (by decide)
  rw [hlines, List.mem_cons, List.mem_singleton] at hx
  rcases hx with rfl | rfl
  · exact absurd (by simp [Text.of]) hno
  · exact absurd (by simp [hdash]) hno

theorem fenceFree_splitIntermediateNodes (hl : '\n' ∉ l) :
    FenceFree l (splitIntermediateNodes l) := by
  rcases splitIntermediateNodes_cases l with h | h
  · rw [h]
    exact (BareKept.refl l).fenceFree hl
  · exact fenceFree_splitsEdge h hl

theorem leavesMark_splitsTarget (h : SplitsTarget l l') : LeavesMark l l' := by
  refine (writes_splitsTarget h).leavesMark (c := '[') ?_ (by decide)
  obtain ⟨-, -, -, -, -, -⟩ := h
  simp [Text.of]

theorem leavesMark_wrapsLabel (he : WrapsLabel b u r v) : LeavesMark u v := by
  refine (writes_wrapsLabel he).leavesMark (c := '[') ?_ (by decide)
  obtain ⟨-, -, -, -⟩ := he
  simp [Text.of]

theorem bareKept_wrapMissingBrackets (l : Text) : BareKept l (wrapMissingBrackets l) :=
  bareKept_of_edits leavesMark_wrapsLabel (wrapMissingBrackets_edits l)

theorem leavesMark_opensBracket (he : OpensBracket b u r v) : LeavesMark u v := by
  refine (writes_opensBracket he).leavesMark (c := '[') ?_ (by decide)
  obtain ⟨-⟩ := he
  decide

theorem leavesMark_closesBracket (he : ClosesBracket b u r v) : LeavesMark u v := by
  refine (writes_closesBracket he).leavesMark (c := '"') ?_ (by decide)
  obtain ⟨-⟩ := he
  decide

theorem bareKept_fixExcessiveBrackets (l : Text) : BareKept l (fixExcessiveBrackets l) := by
  obtain ⟨t, hopens, hcloses⟩ := fixExcessiveBrackets_edits l
  exact (bareKept_of_edits leavesMark_opensBracket hopens).trans
    (bareKept_of_edits leavesMark_closesBracket hcloses)

theorem leavesMark_collapsesLabels (he : CollapsesLabels b u r v) : LeavesMark u v := by
  refine (writes_collapsesLabels he).leavesMark (c := '[') ?_ (by decide)
  obtain ⟨-, -, -, x, rfl, -⟩ := he
  simp [Text.of]

theorem bareKept_collapseDuplicateLabels (l : Text) : BareKept l (collapseDuplicateLabels l) :=
  bareKept_of_edits leavesMark_collapsesLabels (collapseDuplicateLabels_edits l)

theorem leavesMark_quotesLabel (he : QuotesLabel b u r v) : LeavesMark u v := by
  refine (writes_quotesLabel he).leavesMark (c := '[') ?_ (by decide)
  cases he <;> simp [Text.of]

theorem bareKept_quoteUnsafeNodeLabels (l : Text) : BareKept l (quoteUnsafeNodeLabels l) :=
  bareKept_of_edits leavesMark_quotesLabel (quoteUnsafeNodeLabels_edits l)

theorem dash_mem_of_labelsEdge {comment : Text} (he : LabelsEdge comment b u r v) : '-' ∈ v := by
  cases he <;> simp [Text.of]

theorem leavesMark_mergesComment (h : MergesComment l l') : LeavesMark l l' := by
  refine (writes_mergesComment h).leavesMark (c := '-') ?_ (by decide)
  obtain ⟨-, -, -, -, -, -, -, hedit⟩ := h
  simp [dash_mem_of_labelsEdge hedit]

theorem dash_mem_of_labelsPlainEdge {text edge edge' : Text}
    (h : LabelsPlainEdge text edge edge') : '-' ∈ edge' := by
  obtain ⟨-, -, -, -, -, -, -, -, -⟩ := h
  simp [Text.of]

/-- A line that a note leaves is the same as before, or holds an arrow or a label. -/
theorem Rule.ConvertsNote.bare (h : ConvertsNote done l done') :
    ∀ x ∈ done', Bare x → x ∈ l :: done := by
  intro x hx hbare
  cases h with
  | keep => exact hx
  | @attach _ _ _ edge edge' after before _ hedges hedge =>
    subst hedges
    rw [List.mem_append, List.mem_cons] at hx
    rcases hx with hx | rfl | hx
    · simp [hx]
    · exact absurd (dash_mem_of_labelsPlainEdge hedge) (hbare.not_mem (by decide))
    · simp [hx]
  | @node indent node text name =>
    simp only [noteNode, List.cons_append, List.nil_append, List.mem_cons] at hx
    rcases hx with rfl | rfl | hx
    · exact absurd (by simp [Text.of]) (hbare.not_mem (c := '-') (by decide))
    · exact absurd (by simp [Text.of]) (hbare.not_mem (c := '[') (by decide))
    · simp [hx]

theorem bare_convertNoteLines (ids : List Text) (names : NoteNames) :
    ∀ x ∈ (convertNoteLines ids done names ls).1, Bare x → x ∈ done ∨ x ∈ ls := by
  induction ls generalizing done names with
  | nil =>
    intro x hx _
    exact .inl (by simpa [convertNoteLines] using hx)
  | cons l ls ih =>
    rw [convertNoteLines]
    intro x hx hbare
    rcases ih _ x hx hbare with hx | hx
    · have hmem := (convertsNote ids done names l).bare x hx hbare
      rw [List.mem_cons] at hmem
      exact hmem.elim (fun h ↦ .inr (by simp [h])) .inl
    · exact .inr (List.mem_cons_of_mem l hx)

theorem keepsLines_convertNoteDirectives (ids : List Text) (names : NoteNames) (t : Text) :
    KeepsLines Bare t (convertNoteDirectives ids names t).1 := by
  intro x hx hxbare
  rw [lines_convertNoteDirectives] at hx
  simpa using bare_convertNoteLines ids names x hx hxbare

end DiagramRepair
