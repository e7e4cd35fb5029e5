import DiagramRepair.Proofs.Repair.Run
import DiagramRepair.Proofs.Rule.Fences

namespace DiagramRepair

open Pattern Registry Rule RepairRule

variable {T : Text → Prop} {ctx : RepairContext} {rules : List RepairRule} {names : NoteNames}
  {f : Text → Text} {l r t content : Text} {ls ls' : List Text} {c : Char}

namespace RepairRule

def KeepsBare (ctx : RepairContext) (rule : RepairRule) : Prop :=
  ∀ {names names' : NoteNames} {t t' : Text}, rule.apply ctx names t = .ok (t', names') →
    KeepsLines Bare t t'

theorem keepsBare_perLine {name : String} (hf : ∀ l, '\n' ∉ l → FenceFree l (f l)) :
    KeepsBare ctx (perLine name f) := by
  intro names names' t t' h
  obtain ⟨rfl, -⟩ := Prod.mk.inj (Except.ok.inj h)
  exact keepsLines_mapLines hf t

theorem keepsBare_of_bareKept {name : String} (hf : ∀ l, BareKept l (f l)) :
    KeepsBare ctx (perLine name f) :=
  keepsBare_perLine fun l hl ↦ (hf l).fenceFree hl

theorem keepsBare_onFlowcharts {name : String}
    {g : RepairContext → NoteNames → Text → Text × NoteNames}
    (hg : ∀ names t, KeepsLines Bare t (g ctx names t).1) :
    KeepsBare ctx (onFlowcharts name g) := fun h ↦ rel_of_onFlowcharts (.refl Bare) hg h

theorem keepsBare_splitConcatenatedLabels (hids : ∀ id ∈ ctx.ids.ids, id ≠ []) :
    KeepsBare ctx splitConcatenatedLabels := by
  intro names names' t t' h
  obtain ⟨ls, rfl, hlines⟩ := exists_of_splitConcatenatedLabels hids h
  exact keepsLines_unlines (hlines.imp fun _ _ h hnewline ↦
    (bareKept_of_cases (h.imp_right leavesMark_splitsTarget)).fenceFree hnewline)

theorem keepsLines_mergeTrailingComments {names' : NoteNames} {t' : Text} (ht : EscapesHidden t)
    (h : mergeTrailingComments.apply ctx names t = .ok (t', names')) : KeepsLines Bare t t' := by
  obtain ⟨ls, rfl, hlines⟩ := exists_of_mergeTrailingComments ht h
  exact keepsLines_unlines (hlines.imp fun _ _ h hnewline ↦
    (bareKept_of_cases (h.imp_right leavesMark_mergesComment)).fenceFree hnewline)

theorem keepsBare_fixInvalidArrows : KeepsBare ctx fixInvalidArrows :=
  keepsBare_onFlowcharts fun _ t ↦ keepsLines_of_edits
    (fun he ↦ ⟨by obtain ⟨-⟩ := he; decide, '-', by obtain ⟨-⟩ := he; decide,
      fun _ hbare ↦ hbare.not_mem (by decide)⟩) (fixInvalidArrows_edits t)

theorem keepsBare_convertNoteDirectives : KeepsBare ctx convertNoteDirectives :=
  keepsBare_onFlowcharts fun names t ↦ keepsLines_convertNoteDirectives ctx.ids.ids names t

/-- The rules that come after comments are merged. -/
theorem keepsBare_of_mem_drop [Nonces] (hids : ∀ id ∈ ctx.ids.ids, id ≠ []) :
    ∀ rule ∈ RepairRule.all.drop 5, KeepsBare ctx rule := by
  simp only [RepairRule.all, List.drop_succ_cons, List.drop_zero, List.forall_mem_cons]
  refine ⟨keepsBare_fixInvalidArrows, keepsBare_of_bareKept bareKept_fixReversedEdges,
    keepsBare_of_bareKept bareKept_fixMisplacedPipes,
    keepsBare_perLine fun l hl ↦ (bareKept_fixMalformedArrowLabels hl).fenceFree hl,
    keepsBare_of_bareKept bareKept_relocateTrailingLabels,
    keepsBare_of_bareKept bareKept_convertGroupLabels,
    keepsBare_of_bareKept bareKept_mergeDoubleLabels,
    keepsBare_of_bareKept bareKept_promoteDoubleDash,
    keepsBare_of_bareKept bareKept_quotePipeLabels,
    keepsBare_of_bareKept bareKept_quoteEdgeLabels, keepsBare_convertNoteDirectives,
    keepsBare_perLine fun l ↦ fenceFree_splitIntermediateNodes,
    keepsBare_splitConcatenatedLabels hids, keepsBare_of_bareKept bareKept_wrapMissingBrackets,
    keepsBare_of_bareKept bareKept_fixExcessiveBrackets,
    keepsBare_of_bareKept bareKept_collapseDuplicateLabels,
    keepsBare_of_bareKept bareKept_quoteUnsafeNodeLabels, by simp⟩

end RepairRule

theorem keepsLines_applyRules {names' : NoteNames} {t' : Text}
    (hrules : ∀ rule ∈ rules, rule.KeepsBare ctx)
    (h : applyRules ctx rules names t = .ok (t', names')) : KeepsLines Bare t t' :=
  rel_of_applyRules (.refl Bare) (fun h h' ↦ h.trans h') (fun rule hrule ↦ hrules rule hrule) h

def dropMarks (l : Text) : Text := removeEmptyLabels (stripBracketMarks l)

theorem Pattern.Edits.mem {E : (b u r v : Text) → Prop} {b t' : Text}
    (hE : ∀ {b u r v}, E b u r v → c ∉ u) (h : Edits E b t t') (hc : c ∈ t) : c ∈ t' := by
  induction h with
  | nil => cases hc
  | keep _ ih =>
    rw [List.mem_cons] at hc ⊢
    exact hc.imp_right ih
  | edit he _ ih =>
    rcases List.mem_append.mp hc with hc | hc
    · exact absurd hc (hE he)
    · exact List.mem_append_right _ (ih hc)

theorem tokenOpen_mem_dropMarks (h : tokenOpen ∈ l) : tokenOpen ∈ dropMarks l := by
  refine (removeEmptyLabels_edits _).mem (fun he ↦ ?_)
    ((stripBracketMarks_edits l).mem (fun he ↦ ?_) h)
  · cases he with
    | quoted => decide
    | blank _ hs =>
      have hno : tokenOpen ∉ _ := not_mem_of_class hs (by decide)
      simp [hno]
      decide
  · obtain ⟨-, hdigits⟩ := he
    have hno : tokenOpen ∉ _ := not_mem_of_class hdigits (by decide)
    simp only [List.mem_append, not_or]
    exact ⟨by decide, hno, by decide⟩

theorem lines_mapLines_of_newline (hf : ∀ l, '\n' ∉ l → '\n' ∉ f l) (t : Text) :
    Text.lines (Text.mapLines f t) = (Text.lines t).map f := by
  refine Text.lines_unlines (by simp [Text.lines_ne_nil]) fun l hl ↦ ?_
  obtain ⟨l', hl', rfl⟩ := List.mem_map.mp hl
  exact hf l' (Text.newline_not_mem_of_mem_lines hl')

theorem lines_dropMarks (t : Text) :
    Text.lines (Text.mapLines removeEmptyLabels (Text.mapLines stripBracketMarks t)) =
      (Text.lines t).map dropMarks := by
  rw [lines_mapLines_of_newline fun l ↦ (writes_removeEmptyLabels l).newline_not_mem,
    lines_mapLines_of_newline fun l ↦ (writes_stripBracketMarks l).newline_not_mem, List.map_map]
  rfl

/-- All rules together: a bare line is what the first two left of a line. -/
theorem exists_of_bare_applyRules [Nonces] {names' : NoteNames} {t' : Text}
    (hids : ∀ id ∈ ctx.ids.ids, id ≠ []) (ht : EscapesHidden t)
    (h : applyRules ctx RepairRule.all names t = .ok (t', names')) (hl : l ∈ Text.lines t')
    (hbare : Bare l) : ∃ l₀ ∈ Text.lines t, l = dropMarks l₀ := by
  have hall : RepairRule.all = perLine "strip_placeholder_artifacts" stripBracketMarks ::
      perLine "remove_empty_label_artifacts" removeEmptyLabels ::
      perLine "normalize_smart_quotes" straightenQuotes ::
      perLine "fix_nested_label_quotes" stripInnerQuotes ::
      RepairRule.mergeTrailingComments :: RepairRule.all.drop 5 := rfl
  rw [hall] at h
  obtain ⟨t₁, names₁, h₁, ht₁, h⟩ := of_applyRules_spares spares_stripBracketMarks ht h
  obtain ⟨t₂, names₂, h₂, ht₂, h⟩ := of_applyRules_spares spares_removeEmptyLabels ht₁ h
  obtain ⟨t₃, names₃, h₃, ht₃, h⟩ := of_applyRules_spares spares_straightenQuotes ht₂ h
  obtain ⟨t₄, names₄, h₄, ht₄, h⟩ := of_applyRules_spares spares_stripInnerQuotes ht₃ h
  obtain ⟨t₅, names₅, h₅, h⟩ := of_applyRules_cons h
  have hcleaned := (keepsBare_of_bareKept bareKept_straightenQuotes h₃).trans
    (keepsBare_of_bareKept bareKept_stripInnerQuotes h₄)
  have hmerged := hcleaned.trans (keepsLines_mergeTrailingComments ht₄ h₅)
  have hrest := keepsLines_applyRules (keepsBare_of_mem_drop hids) h
  have hl₂ := hmerged l (hrest l hl hbare) hbare
  obtain ⟨rfl, -⟩ := Prod.mk.inj (Except.ok.inj h₁)
  obtain ⟨rfl, -⟩ := Prod.mk.inj (Except.ok.inj h₂)
  rw [lines_dropMarks, List.mem_map] at hl₂
  obtain ⟨l₀, hl₀, rfl⟩ := hl₂
  exact ⟨l₀, hl₀, rfl⟩

theorem keepsLines_hideEscapes [Nonces] (content : Text) :
    KeepsLines (tokenOpen ∉ ·) content (hideEscapes content).1 := by
  obtain ⟨hproper, -⟩ := hideEscapes_registry content
  have htoken : ∀ v, (hideEscapes content).2.Issued v → tokenOpen ∈ v ∧ '\n' ∉ v := by
    rintro v ⟨n, -, rfl⟩
    exact ⟨by simp [token], newline_not_mem_token hproper n⟩
  have hedits : Edits (fun _ _ _ v ↦ tokenOpen ∈ v ∧ '\n' ∉ v) []
      ((Part.ofPattern escapePattern content).flatMap Part.text) (hideEscapes content).1 :=
    Part.edits_conceal (fun _ v _ hv ↦ htoken v hv) []
  rw [flatMap_text_escapes] at hedits
  exact keepsLines_of_edits (fun he ↦ ⟨he.2, tokenOpen, he.1, fun _ hl ↦ hl⟩) hedits

theorem isMarkedPiece_escape [Nonces] {u : Text} (hu : u ∈ (hideEscapes content).2.pieces) :
    IsMarkedPiece u := by
  rcases Part.mem_pieces_conceal hu with hu | hu
  · simp [fresh] at hu
  · obtain ⟨-, hnewline, c, v, rfl, hc⟩ := exists_of_hidden_escape hu
    refine ⟨hnewline, c, by simp, ?_⟩
    rcases hc with rfl | rfl <;> decide

/-- A line of the repaired block that could be a closing fence is what is left of a line of the
block when the marks of brackets and the empty labels are dropped. -/
theorem exists_of_bare_repair [Nonces] (h : repair content = .ok r) (hl : l ∈ Text.lines r)
    (hbare : Bare l) : ∃ l₀ ∈ Text.lines content, l = dropMarks l₀ := by
  obtain ⟨hproper, -⟩ := hideEscapes_registry content
  rw [repair] at h
  simp only at h
  cases hrun : applyRules (.ofContent (hideEscapes content).1) RepairRule.all {}
    (hideEscapes content).1 with
  | error fault =>
    rw [hrun] at h
    cases h
  | ok result =>
    obtain ⟨t, names⟩ := result
    rw [hrun] at h
    obtain rfl : (hideEscapes content).2.restore t = r := Except.ok.inj h
    have hrestored : KeepsLines Bare t ((hideEscapes content).2.restore t) :=
      keepsLines_of_edits
        (fun he ↦ ⟨he.1, he.2.imp fun _ hc ↦ ⟨hc.1, fun _ hbare ↦ hbare.not_mem hc.2⟩⟩)
        (edits_restore hproper (fun _ ↦ isMarkedPiece_escape) [] t)
    obtain ⟨l₀, hl₀, rfl⟩ := exists_of_bare_applyRules
      (fun id hid ↦ (IdSet.isIdent_of_mem_harvest hid).1)
      (fun l hl ↦ backslashAtEnd_hideEscapes hl) hrun (hrestored l hl hbare) hbare
    -- A bare line holds no token, so the line was not hidden in part.
    have hno : tokenOpen ∉ l₀ := fun hmem ↦
      hbare.not_mem (by decide) (tokenOpen_mem_dropMarks hmem)
    exact ⟨l₀, keepsLines_hideEscapes content l₀ hl₀ hno, rfl⟩

end DiagramRepair
