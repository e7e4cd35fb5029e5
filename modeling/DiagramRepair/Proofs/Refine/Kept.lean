import DiagramRepair.Proofs.Refine.Segment

namespace DiagramRepair

open Registry Segment

variable {document : Text}

theorem apart_rows [Nonces] (document : Text) : (hideTableRows document).2.Apart fun _ ↦ False where
  proper := (hideTableRows_registry document).1
  tokenLike := rowTokens_none.tokenLike
  foreign := fun _ h ↦ h.elim

theorem known_of_issued {r : Registry} {t : Text} (h : Intact r.Issued t) :
    Intact (r.Known fun _ ↦ False) t := h.mono fun _ ↦ .inl

theorem of_mem_rows [Nonces] {l : Text} (hl : l ∈ (hideTableRows document).2.pieces) :
    isTableSeparator l ∧ '\n' ∉ l ∧ (tokenOpen ∉ document → tokenOpen ∉ l) := by
  obtain ⟨hline, hrow⟩ := of_mem_hideLines hl
  exact ⟨hrow, Text.newline_not_mem_of_mem_lines hline,
    fun hdocument h ↦ hdocument (Text.mem_of_mem_lines h hline)⟩

theorem exists_refine [Nonces] (hdocument : tokenOpen ∉ document) (checker? : Option Checker) (deep : Bool)
    (asked : Asked) : ∃ t,
      ((refine checker? document deep).run asked).1 = (hideTableRows document).2.restore t ∧
      Intact (hideTableRows document).2.Issued t ∧
      KeepsRows (hideTableRows document).2.Issued (hideTableRows document).1 t := by
  have hT := rowTokens_rows document
  have ht := tokensAlone_closeBlocks hT.tokenLike (tokensAlone_rows hdocument)
  have hrows := keepsRows_closeBlocks hT.tokenLike (hideTableRows document).1
  have hbaseline : ∃ t,
      (hideTableRows document).2.restore (closeBlocks (hideTableRows document).1) =
        (hideTableRows document).2.restore t ∧ Intact (hideTableRows document).2.Issued t ∧
      KeepsRows (hideTableRows document).2.Issued (hideTableRows document).1 t :=
    ⟨_, rfl, ht.intact hT.tokenLike, hrows⟩
  cases checker? with
  | none => exact hbaseline
  | some c =>
    cases deep with
    | false => exact hbaseline
    | true =>
      obtain ⟨segments, hrun, -, hintact, hkeeps⟩ := exists_refineSegments hT ht c asked
      refine ⟨renderAll segments, ?_, hintact, hrows.trans hkeeps⟩
      rw [refine, StateT.run_bind, hrun]
      rfl

/-- The table separator rows of a document, wherever they stand, are lines of the refined document
in the same order. -/
theorem tableSeparators_sublist_refine [Nonces] (hdocument : tokenOpen ∉ document)
    (checker? : Option Checker) (deep : Bool) (asked : Asked) :
    ((Text.lines document).filter isTableSeparator).Sublist
      (Text.lines ((refine checker? document deep).run asked).1) := by
  obtain ⟨t, hrefine, hintact, hkeeps⟩ := exists_refine hdocument checker? deep asked
  obtain ⟨ks, hks, hsub, hrows⟩ := exists_rows hdocument
  rw [hrefine, ← hrows, lines_restore (apart_rows document) (fun l hl ↦ (of_mem_rows hl).2.1)
    (known_of_issued hintact)]
  exact (hkeeps ks hks hsub).map _

section

attribute [local instance] Nonces.zeros

theorem tableSeparators_sublist_refine_rejected :
    tokenOpen ∉ Text.of "| a |\n```mermaid\n| - |" ∧
    [Text.of "| - |"].Sublist (Text.lines ((refine (some (.ofFunction fun _ ↦ .ok false))
      (Text.of "| a |\n```mermaid\n| - |")).run []).1) := by
  have hdocument : tokenOpen ∉ Text.of "| a |\n```mermaid\n| - |" := by decide
  have hrows : (Text.lines (Text.of "| a |\n```mermaid\n| - |")).filter isTableSeparator =
      [Text.of "| - |"] := by decide
  refine ⟨hdocument, hrows ▸ ?_⟩
  exact tableSeparators_sublist_refine hdocument (some (.ofFunction fun _ ↦ .ok false)) true []

end

theorem exists_applyRules_intact [Nonces] {content : Text} (hcontent : tokenOpen ∉ content) (k : Nat) :
    ∃ t names, applyRules (.ofContent (hideEscapes content).1) (RepairRule.all.take k) {}
      (hideEscapes content).1 = .ok (t, names) ∧ Intact (hideEscapes content).2.Issued t := by
  obtain ⟨t, names, hrun, hspared⟩ := exists_applyRules content k
  have hintact := hspared.intact (rowTokens_none.outerTokens_known content)
    (intact_hideEscapes rowTokens_none.tokenLike (tokensAlone_of_not_mem hcontent))
  exact ⟨t, names, hrun, hintact.mono fun _ hk ↦ hk.resolve_right id⟩

/-- After the escapes of a block are hidden, and after every rule, all tokens in the text are whole
ones of this run. The repaired block has no token, nor has a refined document. -/
theorem tokens_intact_until_restored [Nonces] :
    (∀ content, tokenOpen ∉ content →
      (∀ k, ∃ t names, applyRules (.ofContent (hideEscapes content).1) (RepairRule.all.take k) {}
        (hideEscapes content).1 = .ok (t, names) ∧ Intact (hideEscapes content).2.Issued t) ∧
      ∃ t, repair content = .ok t ∧ tokenOpen ∉ t) ∧
    ∀ document, tokenOpen ∉ document → ∀ checker? deep asked,
      tokenOpen ∉ ((refine checker? document deep).run asked).1 := by
  refine ⟨fun content hcontent ↦ ⟨exists_applyRules_intact hcontent, ?_⟩, ?_⟩
  · have halone := tokensAlone_of_not_mem (T := fun _ ↦ False) hcontent
    obtain ⟨t, hrepair, hintact, -⟩ := exists_repair rowTokens_none halone
    exact ⟨t, hrepair, not_mem_of_intact_empty hintact⟩
  · intro document hdocument checker? deep asked
    obtain ⟨t, hrefine, hintact, -⟩ := exists_refine hdocument checker? deep asked
    rw [hrefine]
    refine not_mem_of_intact_empty (intact_restore (apart_rows document) (fun l hl ↦ ?_)
      (known_of_issued hintact))
    exact intact_of_not_mem ((of_mem_rows hl).2.2 hdocument)

section

attribute [local instance] Nonces.zeros

theorem tokens_intact_until_restored_escape :
    (hideEscapes (Text.of "A[\\x]")).2.size = 1 ∧
    (∀ k, ∃ t names, applyRules (.ofContent (hideEscapes (Text.of "A[\\x]")).1)
      (RepairRule.all.take k) {} (hideEscapes (Text.of "A[\\x]")).1 = .ok (t, names) ∧
        Intact (hideEscapes (Text.of "A[\\x]")).2.Issued t) ∧
    (∃ t, repair (Text.of "A[\\x]") = .ok t ∧ tokenOpen ∉ t) ∧
    tokenOpen ∉ ((refine none (Text.of "| - |") true).run []).1 := by
  obtain ⟨hrepair, hrefine⟩ := tokens_intact_until_restored
  obtain ⟨hrules, hresult⟩ := hrepair (Text.of "A[\\x]") (by decide)
  exact ⟨rfl, hrules, hresult, hrefine (Text.of "| - |") (by decide) none true []⟩

end

end DiagramRepair
