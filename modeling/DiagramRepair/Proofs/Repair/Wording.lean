import DiagramRepair.Proofs.Line.Wording
import DiagramRepair.Proofs.Repair.Written

namespace DiagramRepair

open Pattern Registry Rule

variable {E : (b u r v : Text) → Prop} {b l l' r t t' u v : Text} {c : Char} {f : Text → Text}
  {markup : CharClass} {names : NoteNames} {ctx : RepairContext} {content : Text}

abbrev SameWording (l l' : Text) : Prop := wording isLabelMarkup l' = wording isLabelMarkup l

theorem sameWording_removeEmptyLabels (l : Text) : SameWording l (removeEmptyLabels l) := by
  refine (removeEmptyLabels_edits l).wording_eq fun he ↦ ?_
  cases he with
  | quoted => decide
  | blank _ hs =>
    rw [wording_cons, wording_append, wording_blank hs]
    rfl

theorem sameWording_stripInnerQuotes (l : Text) : SameWording l (stripInnerQuotes l) := by
  refine (stripInnerQuotes_edits l).wording_eq fun he ↦ ?_
  obtain ⟨⟩ := he
  rw [wording_cons, wording_cons _ '"', wording_append, wording_dropQuotes, ← wording_append,
    ← wording_cons, ← wording_cons]

theorem not_isLabelMarkup_of_isTokenChar (hc : isTokenChar c) : isLabelMarkup c = false := by
  have hno : ∀ c ∈ "\"[]".toList, isTokenChar c = false := by decide
  rw [isLabelMarkup, Bool.or_eq_false_iff]
  refine ⟨Bool.eq_false_iff.mpr fun hblank ↦ ?_, Bool.eq_false_iff.mpr fun hquote ↦ ?_⟩
  · simp [not_isTokenChar_of_isBlank hblank] at hc
  · simp [hno c (by simpa [among] using hquote)] at hc

/-- Tokens belong to the wording, so what the restored text says does not depend on the markup
around them. -/
theorem Registry.wording_restore {reg : Registry} {T : Text → Prop} (h : reg.Apart T)
    (ht : Intact (reg.Known T) t) :
    wording isLabelMarkup (reg.restore t) =
      wording isLabelMarkup (reg.restore (wording isLabelMarkup t)) := by
  refine Intact.induction h.tokenLike_known rfl ?plain ?token ht
  case plain =>
    intro c t hc _ ih
    rw [restore_cons hc, wording_cons, wording_cons _ c t, ih]
    cases hmarkup : isLabelMarkup c with
    | true =>
      rw [wording_eq_nil (by simpa using hmarkup), List.nil_append, List.nil_append]
    | false =>
      have hself : wording isLabelMarkup [c] = [c] := wording_eq_self (by simpa using hmarkup)
      rw [hself, List.singleton_append, List.singleton_append, restore_cons hc, wording_cons, hself,
        List.singleton_append]
  case token =>
    intro k t hk _ ih
    have hself : wording isLabelMarkup k = k := wording_eq_self fun c hc ↦
      not_isLabelMarkup_of_isTokenChar (isTokenChar_of_mem h.tokenLike_known hk hc)
    obtain ⟨v, -, hv⟩ := exists_restore_known h hk
    rw [wording_append, hself, hv, hv, wording_append, wording_append, ih]

theorem sameWording_fixMalformedArrowLabels [Nonces] (hopen : tokenOpen ∉ l) :
    SameWording l (fixMalformedArrowLabels l) := by
  rw [fixMalformedArrowLabels]
  split
  · rfl
  · obtain ⟨hproper, -⟩ := hideBracketRegions_registry l
    have hapart : (hideBracketRegions l).2.Apart fun _ ↦ False :=
      ⟨hproper, fun _ hk ↦ hk.elim, fun _ hk ↦ hk.elim⟩
    have hshown := intact_hideBracketRegions hapart.tokenLike (intact_of_not_mem hopen)
    have hclosed := sparesInside_closesLabel.intact_edits hapart.tokenLike_known
      (closeLabelBeforeArrow_edits _) hshown
    have hopened := sparesInside_opensLabel.intact_edits hapart.tokenLike_known
      (openLabelAfterDashes_edits _) hclosed
    have hcloses : SameWording (hideBracketRegions l).1
        (closeLabelBeforeArrow (hideBracketRegions l).1) :=
      (closeLabelBeforeArrow_edits _).wording_eq fun he ↦ by
        obtain ⟨⟩ := he
        decide
    have hopens : SameWording (closeLabelBeforeArrow (hideBracketRegions l).1)
        (openLabelAfterDashes (closeLabelBeforeArrow (hideBracketRegions l).1)) :=
      (openLabelAfterDashes_edits _).wording_eq fun he ↦ by
        obtain ⟨⟩ := he
        decide
    calc wording isLabelMarkup ((hideBracketRegions l).2.restore
          (openLabelAfterDashes (closeLabelBeforeArrow (hideBracketRegions l).1)))
        = wording isLabelMarkup ((hideBracketRegions l).2.restore (hideBracketRegions l).1) := by
          rw [wording_restore hapart hopened, hopens, hcloses, ← wording_restore hapart hshown]
      _ = wording isLabelMarkup l := by rw [restore_hideBracketRegions hopen]

theorem sameWording_quoteEdgeLabels (l : Text) : SameWording l (quoteEdgeLabels l) := by
  refine (quoteEdgeLabels_edits l).wording_eq fun he ↦ ?_
  obtain ⟨hs, -, hs', -, -⟩ := he
  have hsigns : wording isLabelMarkup (Text.of "-- \"") = wording isLabelMarkup (Text.of "--") ∧
      wording isLabelMarkup (Text.of "\" ") = [] := by decide
  simp [wording_blank hs, wording_blank hs', hsigns]

theorem sameWording_splitsTarget (h : SplitsTarget l l') : SameWording l l' := by
  obtain ⟨-, -, -, -, -, -⟩ := h
  simp [SameWording, wording_wrapping]

theorem sameWording_wrapMissingBrackets (l : Text) : SameWording l (wrapMissingBrackets l) := by
  refine (wrapMissingBrackets_edits l).wording_eq fun he ↦ ?_
  obtain ⟨-, -, -, -⟩ := he
  simp [wording_wrapping]

theorem sameWording_fixExcessiveBrackets (l : Text) : SameWording l (fixExcessiveBrackets l) := by
  have hmarkup : ∀ {s : Text} {c : Char}, (∀ d ∈ s, d = c) → isLabelMarkup c →
      wording isLabelMarkup s = [] := fun hs hc ↦ wording_eq_nil fun d hd ↦ hs d hd ▸ hc
  obtain ⟨t, hopens, hcloses⟩ := fixExcessiveBrackets_edits l
  have ht : SameWording l t := by
    refine hopens.wording_eq fun he ↦ ?_
    obtain ⟨hbrackets⟩ := he
    rw [wording_append, wording_append, hmarkup hbrackets (by decide)]
    decide
  refine Eq.trans (hcloses.wording_eq fun he ↦ ?_) ht
  obtain ⟨hbrackets⟩ := he
  rw [wording_append, hmarkup hbrackets (by decide), List.append_nil]

theorem sameWording_quoteUnsafeNodeLabels (l : Text) :
    SameWording l (quoteUnsafeNodeLabels l) := by
  refine (quoteUnsafeNodeLabels_edits l).wording_eq fun he ↦ ?_
  cases he with
  | plain => simp [wording_wrapping]
  | terminated _ _ hs => simp [wording_wrapping, wording_blank hs]

theorem lines_unlines_of_writes {ls : List Text} (h : List.Forall₂ Writes (Text.lines t) ls) :
    Text.lines (Text.unlines ls) = ls := by
  refine Text.lines_unlines (fun hnil ↦ ?_) fun l' hl' ↦ ?_
  · rw [hnil, List.forall₂_nil_right_iff] at h
    exact Text.lines_ne_nil t h
  · obtain ⟨l, hl, hwrites⟩ := exists_of_forall₂ h hl'
    exact hwrites.newline_not_mem (Text.newline_not_mem_of_mem_lines hl)

/-- Where every line says the same, so does the text. -/
theorem SameWording.of_lines (h : List.Forall₂ SameWording (Text.lines t) (Text.lines t')) :
    SameWording t t' := by
  have hflat : ∀ {ls ls' : List Text}, List.Forall₂ SameWording ls ls' →
      ls'.flatMap (wording isLabelMarkup) = ls.flatMap (wording isLabelMarkup) := by
    intro ls ls' h
    induction h with
    | nil => rfl
    | cons hl _ ih => rw [List.flatMap_cons, List.flatMap_cons, hl, ih]
  rw [SameWording, ← Text.unlines_lines t, ← Text.unlines_lines t', wording_unlines,
    wording_unlines, hflat h]

namespace RepairRule

def KeepsWording (ctx : RepairContext) (rule : RepairRule) (content : Text) : Prop :=
  ∀ names, ∃ t, rule.apply ctx names content = .ok (t, names) ∧
    List.Forall₂ SameWording (Text.lines content) (Text.lines t)

theorem keepsWording_perLine {name : String} (hcontent : tokenOpen ∉ content)
    (hf : ∀ l, Writes l (f l)) (hsame : ∀ l, tokenOpen ∉ l → SameWording l (f l)) :
    KeepsWording ctx (perLine name f) content := by
  have hwrites : List.Forall₂ Writes (Text.lines content) ((Text.lines content).map f) := by
    rw [List.forall₂_map_right_iff, List.forall₂_same]
    exact fun l _ ↦ hf l
  refine fun names ↦ ⟨_, rfl, ?_⟩
  rw [Text.mapLines, lines_unlines_of_writes hwrites, List.forall₂_map_right_iff, List.forall₂_same]
  exact fun l hl ↦ hsame l fun hmem ↦ hcontent (Text.mem_of_mem_lines hmem hl)

/-- Where the rule about glued labels gives every line a result, it gives the block one. -/
theorem splitConcatenatedLabels_lines {R : Text → Text → Prop} (hR : ∀ {l l'}, R l l' → Writes l l')
    (hline : ∀ l ∈ Text.lines content, ∃ l', splitGluedTarget ctx.ids content l = .ok l' ∧ R l l')
    (names : NoteNames) : ∃ t, splitConcatenatedLabels.apply ctx names content = .ok (t, names) ∧
      List.Forall₂ R (Text.lines content) (Text.lines t) := by
  obtain ⟨ls, hls, hcases⟩ := exists_mapM hline
  refine ⟨Text.unlines ls, ?_, ?_⟩
  · simp only [splitConcatenatedLabels, Rule.splitConcatenatedLabels, hls]
    rfl
  · rwa [lines_unlines_of_writes (hcases.imp fun _ _ h ↦ hR h)]

theorem keepsWording_splitConcatenatedLabels (hids : ∀ id ∈ ctx.ids.ids, id ≠ []) :
    KeepsWording ctx splitConcatenatedLabels content := by
  intro names
  have hline : ∀ l ∈ Text.lines content, ∃ l', splitGluedTarget ctx.ids content l = .ok l' ∧
      (l' = l ∨ SplitsTarget l l') := fun l _ ↦ splitGluedTarget_ok hids content l
  obtain ⟨t, ht, hcases⟩ :=
    splitConcatenatedLabels_lines (writes_of_cases writes_splitsTarget) hline names
  refine ⟨t, ht, hcases.imp fun l l' h ↦ ?_⟩
  rcases h with rfl | h
  · rfl
  · exact sameWording_splitsTarget h

def labelRules : List String :=
  ["remove_empty_label_artifacts", "fix_nested_label_quotes", "fix_malformed_arrow_labels",
    "quote_pipe_labels", "quote_edge_labels", "split_concatenated_labels", "wrap_missing_brackets",
    "fix_excessive_brackets", "quote_unsafe_node_labels"]

theorem keepsWording_of_mem_labelRules [Nonces] (hids : ∀ id ∈ ctx.ids.ids, id ≠ [])
    (hcontent : tokenOpen ∉ content) :
    ∀ name ∈ labelRules, ∃ rule, find? name = some rule ∧ KeepsWording ctx rule content := by
  simp only [labelRules, List.forall_mem_cons]
  refine ⟨⟨_, rfl, ?_⟩, ⟨_, rfl, ?_⟩, ⟨_, rfl, ?_⟩, ⟨_, rfl, ?_⟩, ⟨_, rfl, ?_⟩,
    ⟨_, rfl, keepsWording_splitConcatenatedLabels hids⟩, ⟨_, rfl, ?_⟩, ⟨_, rfl, ?_⟩,
    ⟨_, rfl, ?_⟩, by simp⟩
  · exact keepsWording_perLine hcontent writes_removeEmptyLabels
      fun l _ ↦ sameWording_removeEmptyLabels l
  · exact keepsWording_perLine hcontent writes_stripInnerQuotes
      fun l _ ↦ sameWording_stripInnerQuotes l
  · exact keepsWording_perLine hcontent writes_fixMalformedArrowLabels
      fun l hl ↦ sameWording_fixMalformedArrowLabels hl
  · exact keepsWording_perLine hcontent
      (fun l ↦ writes_of_edits writes_quotesBarLabel (quotePipeLabels_edits l))
      fun l _ ↦ Line.wording_quotePipeLabels l
  · exact keepsWording_perLine hcontent
      (fun l ↦ writes_of_edits writes_quotesEdgeLabel (quoteEdgeLabels_edits l))
      fun l _ ↦ sameWording_quoteEdgeLabels l
  · exact keepsWording_perLine hcontent
      (fun l ↦ writes_of_edits writes_wrapsLabel (wrapMissingBrackets_edits l))
      fun l _ ↦ sameWording_wrapMissingBrackets l
  · exact keepsWording_perLine hcontent writes_fixExcessiveBrackets
      fun l _ ↦ sameWording_fixExcessiveBrackets l
  · exact keepsWording_perLine hcontent
      (fun l ↦ writes_of_edits writes_quotesLabel (quoteUnsafeNodeLabels_edits l))
      fun l _ ↦ sameWording_quoteUnsafeNodeLabels l

/-- No label loses, repeats or exchanges text under one of these rules. -/
theorem sameWording_labelRules [Nonces] (hids : ∀ id ∈ ctx.ids.ids, id ≠ [])
    (hcontent : tokenOpen ∉ content) (names : NoteNames) :
    ∀ name ∈ labelRules, ∃ rule t, find? name = some rule ∧
      rule.apply ctx names content = .ok (t, names) ∧ SameWording content t ∧
      List.Forall₂ SameWording (Text.lines content) (Text.lines t) := by
  intro name hname
  obtain ⟨rule, hfind, hkeeps⟩ := keepsWording_of_mem_labelRules hids hcontent name hname
  obtain ⟨t, ht, hlines⟩ := hkeeps names
  exact ⟨rule, t, hfind, ht, .of_lines hlines, hlines⟩

section

attribute [local instance] Nonces.zeros

theorem sameWording_labelRules_glued :
    let ctx : RepairContext := ⟨⟨[Text.of "Split"], []⟩, .flowchart⟩
    let content := Text.of "A -- \"in -->\" SplitSplit it[x=y]\nB --> Split on;"
    ((∀ id ∈ ctx.ids.ids, id ≠ []) ∧ tokenOpen ∉ content) ∧
    fixMalformedArrowLabels (Text.of "A -- \"in -->\" SplitSplit it[x=y]") =
      Text.of "A -- \"in\" --> SplitSplit it[x=y]" ∧
    ∀ name ∈ labelRules, ∃ rule t, find? name = some rule ∧
      rule.apply ctx {} content = .ok (t, {}) ∧ SameWording content t ∧
      List.Forall₂ SameWording (Text.lines content) (Text.lines t) := by
  intro ctx content
  exact ⟨⟨by decide, by decide⟩, by decide, sameWording_labelRules (by decide) (by decide) {}⟩

end

end RepairRule

end DiagramRepair
