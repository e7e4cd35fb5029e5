import DiagramRepair.Proofs.Block.Closing
import DiagramRepair.Proofs.Placeholder.Hiding
import DiagramRepair.Proofs.Placeholder.Rows
import DiagramRepair.Proofs.Repair.Run
import DiagramRepair.Refine

namespace DiagramRepair

open Pattern Registry

variable {T : Text → Prop} {document t l l' : Text} {ls ks : List Text}

theorem not_mem_of_isTableSeparator (h : isTableSeparator l) : '`' ∉ l ∧ l ≠ [] := by
  rw [isTableSeparator, Bool.and_eq_true] at h
  obtain ⟨u, r, gs, rfl, htakes⟩ := (isMatch_iff (by decide)).mp h.2
  have hu : '`' ∉ u := htakes.not_mem (by decide)
  have hr : r = [] ∨ r = ['\n'] := by
    rw [tableSeparatorPattern] at htakes
    exact (takes_append_lastLineEnd.mp htakes).1
  have hne : u ++ r ≠ [] := by
    intro hnil
    simp [hnil] at h
  refine ⟨?_, hne⟩
  rcases hr with rfl | rfl <;> simp [hu]

theorem isInner_of_not_mem (h : '`' ∉ l) : IsInner l := by
  refine ⟨Bool.eq_false_iff.mpr fun hl ↦ ?_, Bool.eq_false_iff.mpr fun hl ↦ ?_⟩
  · obtain ⟨s, u, r, rfl, -, hu⟩ := Fence.isOpening_iff.mp hl
    obtain ⟨⟨v, rfl⟩, -⟩ := hu.exists_snoc
    simp at h
  · obtain ⟨s, s', rfl, -⟩ := Fence.isClosing_iff.mp hl
    simp [Fence.closing, Text.of] at h

theorem isInner_token (hT : TokenLike T) (hl : T l) : IsInner l :=
  isInner_of_not_mem (hT.not_mem hl (by decide))

theorem hideTableRows_registry [Nonces] (document : Text) :
    (hideTableRows document).2.Proper ∧ (hideTableRows document).2.tag = Text.of "TABLE" := by
  refine ⟨proper_hideLines isTableSeparator (by decide) document, ?_⟩
  rw [hideTableRows, hideLines, Part.conceal_registry]
  rfl

theorem tokenLike_rows [Nonces] (document : Text) : TokenLike (hideTableRows document).2.Issued :=
  tokenLike_issued (hideTableRows_registry document).1

theorem rowTokens_rows [Nonces] (document : Text) : RowTokens (hideTableRows document).2.Issued := by
  have htag := (hideTableRows_registry document).2
  have hforeign : ∀ {r : Registry}, '_' ∉ r.tag → r.tag ≠ Text.of "TABLE" →
      r.Foreign (hideTableRows document).2.Issued :=
    fun hr hne ↦ foreign_of_tag hr (htag ▸ by decide) (htag ▸ hne)
  exact ⟨⟨tokenLike_rows document, fun hr ↦ hforeign (hr ▸ by decide) (hr ▸ by decide)⟩,
    fun hr ↦ hforeign (hr ▸ by decide) (hr ▸ by decide)⟩

theorem rowTokens_none : RowTokens fun _ ↦ False :=
  ⟨⟨fun _ h ↦ h.elim, fun _ _ h ↦ h.elim⟩, fun _ _ h ↦ h.elim⟩

theorem hideTableRows_lines [Nonces] (document : Text) :
    List.Forall₂ (Part.StandsFor isTableSeparator (hideTableRows document).2) (Text.lines document)
      (Text.lines (hideTableRows document).1) :=
  lines_hideLines isTableSeparator (by decide) document

/-- The lines of the document and those that stand for them: a token for a row, the same line for
any other. -/
theorem hideTableRows_standsFor [Nonces] (hdocument : tokenOpen ∉ document) {l l' : Text}
    (hl : l ∈ Text.lines document)
    (h : Part.StandsFor isTableSeparator (hideTableRows document).2 l l') :
    (isTableSeparator l ∧ (hideTableRows document).2.Issued l' ∧
      (hideTableRows document).2.restore l' = l) ∨
    (isTableSeparator l = false ∧ l' = l ∧ tokenOpen ∉ l) := by
  rw [Part.StandsFor] at h
  split at h
  · rename_i hrow
    obtain ⟨n, hpiece, rfl⟩ := h
    obtain ⟨hn, hget⟩ := Array.getElem?_eq_some_iff.mp hpiece
    exact .inl ⟨hrow, ⟨n, hn, rfl⟩, (restore_token hn).trans hget⟩
  · rename_i hrow
    refine .inr ⟨by simpa using hrow, h, fun hmem ↦ hdocument ?_⟩
    exact Text.mem_of_mem_lines hmem hl

theorem tokensAlone_rows [Nonces] (hdocument : tokenOpen ∉ document) :
    TokensAlone (hideTableRows document).2.Issued (hideTableRows document).1 := by
  intro l' hl'
  obtain ⟨l, hl, hstands⟩ := exists_of_forall₂ (hideTableRows_lines document) hl'
  rcases hideTableRows_standsFor hdocument hl hstands with ⟨-, hissued, -⟩ | ⟨-, rfl, hno⟩
  · exact .inr hissued
  · exact .inl hno

theorem exists_rows [Nonces] (hdocument : tokenOpen ∉ document) :
    ∃ ks : List Text, (∀ k ∈ ks, (hideTableRows document).2.Issued k) ∧
      ks.Sublist (Text.lines (hideTableRows document).1) ∧
      ks.map (hideTableRows document).2.restore =
        (Text.lines document).filter isTableSeparator := by
  have hstands := fun l hl l' ↦ @hideTableRows_standsFor document _ hdocument l l' hl
  have hlines := hideTableRows_lines document
  generalize Text.lines document = ls at hstands hlines
  generalize Text.lines (hideTableRows document).1 = ls' at hlines
  induction hlines with
  | nil => exact ⟨[], by simp, .refl _, rfl⟩
  | @cons l l' ls ls' hl _ ih =>
    obtain ⟨ks, hks, hsub, hrestore⟩ := ih fun l hl ↦ hstands l (by simp [hl])
    rcases hstands l (by simp) l' hl with ⟨hrow, hissued, hl'⟩ | ⟨hrow, -⟩
    · refine ⟨l' :: ks, List.forall_mem_cons.mpr ⟨hissued, hks⟩, hsub.cons_cons l', ?_⟩
      rw [List.map_cons, hl', hrestore, List.filter_cons_of_pos hrow]
    · exact ⟨ks, hks, hsub.cons l', by rw [hrestore, List.filter_cons_of_neg (by simp [hrow])]⟩

theorem normalize_token (hT : TokenLike T) (hl : T l) : Line.normalize l = l := by
  refine (Line.normalizes_normalize l).fixed fun c hc ↦ ?_
  rw [Bool.eq_false_iff]
  intro hmark
  have hno : ∀ c ∈ "-|[\"".toList, isTokenChar c = false := by decide
  simpa [hno c (among_eq_true.mp hmark)] using isTokenChar_of_mem hT hl hc

theorem tokensAlone_closeBlocks (hT : TokenLike T) (ht : TokensAlone T t) :
    TokensAlone T (closeBlocks t) := by
  rw [TokensAlone, lines_closeBlocks]
  refine forall_mem_closeLines (.inl (by decide)) (fun l hl hopening ↦ ?_) (fun l hl ↦ ?_) none
    (by simp) ht
  · rcases hl with hno | hl
    · refine .inl fun h ↦ ?_
      rcases Fence.mem_normalizeOpening h with h | h
      · exact hno h
      · exact absurd h (by decide)
    · simp [(isInner_token hT hl).1] at hopening
  · rcases hl with hno | hl
    · refine .inl fun h ↦ ?_
      rcases (Line.normalizes_normalize l).adds _ h with h | h
      · exact hno h
      · exact absurd h (by decide)
    · rw [normalize_token hT hl]
      exact .inr hl

theorem keepsRows_closeBlocks (hT : TokenLike T) (t : Text) : KeepsRows T t (closeBlocks t) := by
  intro ks hks hsub
  obtain ⟨ls, hls, hlines⟩ := exists_sublist_closeLines Line.normalize none (Text.lines t)
  rw [lines_closeBlocks]
  refine (sublist_of_forall₂ hls (fun k hk l hl ↦ ?_) hsub).trans hlines
  rcases hl with rfl | rfl | ⟨hopening, -⟩
  · rfl
  · exact normalize_token hT (hks k hk)
  · simp [(isInner_token hT (hks k hk)).1] at hopening

end DiagramRepair
