import DiagramRepair.Proofs.Analysis.Identifiers
import DiagramRepair.Proofs.Repair.Rule
import DiagramRepair.Repair.Run

namespace DiagramRepair

open Pattern Registry Rule RepairRule

variable {T : Text → Prop} {P Q : Text → Prop} {ctx : RepairContext} {rules : List RepairRule}
  {names : NoteNames} {t content : Text}

/-- Every rule gets from the property that the rule before it leaves. -/
inductive Chain (ctx : RepairContext) : (Text → Prop) → List RepairRule → Prop
  | nil {P : Text → Prop} : Chain ctx P []
  | cons {P Q : Text → Prop} {rule : RepairRule} {rules : List RepairRule} :
      rule.Spares ctx P Q → Chain ctx Q rules → Chain ctx P (rule :: rules)

theorem Chain.exists_applyRules (h : Chain ctx P rules) (k : Nat) (names : NoteNames) (ht : P t) :
    ∃ t' names', applyRules ctx (rules.take k) names t = .ok (t', names') ∧ SparedBlock t t' := by
  induction h generalizing k names t with
  | nil => exact ⟨t, names, by simp [applyRules], .refl t⟩
  | @cons P Q rule rules hrule _ ih =>
    cases k with
    | zero => exact ⟨t, names, rfl, .refl t⟩
    | succ k =>
      obtain ⟨t', names', happly, hQ, hspared⟩ := hrule names t ht
      obtain ⟨t'', names'', hrest, hspared'⟩ := ih k names' hQ
      refine ⟨t'', names'', ?_, hspared.trans hspared'⟩
      rw [List.take_succ_cons, applyRules, happly]
      exact hrest

theorem of_applyRules_cons {rule : RepairRule} {result : Text × NoteNames}
    (h : applyRules ctx (rule :: rules) names t = .ok result) :
    ∃ t' names', rule.apply ctx names t = .ok (t', names') ∧
      applyRules ctx rules names' t' = .ok result := by
  rw [applyRules] at h
  cases hrule : rule.apply ctx names t with
  | error fault =>
    rw [hrule] at h
    cases h
  | ok p =>
    rw [hrule] at h
    exact ⟨p.1, p.2, rfl, h⟩

/-- A rule that leaves the escapes hidden is followed by the rest of the rules. -/
theorem of_applyRules_spares {rule : RepairRule} {P Q : Text → Prop} {result : Text × NoteNames}
    (hrule : rule.Spares ctx P Q) (ht : P t)
    (h : applyRules ctx (rule :: rules) names t = .ok result) :
    ∃ t' names', rule.apply ctx names t = .ok (t', names') ∧ Q t' ∧
      applyRules ctx rules names' t' = .ok result := by
  obtain ⟨t', names', happly, hQ, -⟩ := hrule names t ht
  obtain ⟨t₁, names₁, happly', h⟩ := of_applyRules_cons h
  obtain ⟨rfl, rfl⟩ := Prod.mk.inj (Except.ok.inj (happly.symm.trans happly'))
  exact ⟨t', names', happly, hQ, h⟩

theorem of_applyRules_append {before after : List RepairRule} {result : Text × NoteNames}
    (h : applyRules ctx (before ++ after) names t = .ok result) :
    ∃ t' names', applyRules ctx before names t = .ok (t', names') ∧
      applyRules ctx after names' t' = .ok result := by
  induction before generalizing names t with
  | nil => exact ⟨t, names, rfl, h⟩
  | cons rule before ih =>
    obtain ⟨t₁, names₁, hrule, h⟩ := of_applyRules_cons h
    obtain ⟨t₂, names₂, hbefore, hafter⟩ := ih h
    refine ⟨t₂, names₂, ?_, hafter⟩
    rw [applyRules, hrule]
    exact hbefore

/-- What every rule does to a text, all of them do one after the other. -/
theorem rel_of_applyRules {R : Text → Text → Prop} {names' : NoteNames} {t' : Text}
    (hrefl : ∀ t, R t t) (htrans : ∀ {t t' t''}, R t t' → R t' t'' → R t t'')
    (hrules : ∀ rule ∈ rules, ∀ {names names' : NoteNames} {t t' : Text},
      rule.apply ctx names t = .ok (t', names') → R t t')
    (h : applyRules ctx rules names t = .ok (t', names')) : R t t' := by
  induction rules generalizing names t with
  | nil =>
    obtain ⟨rfl, -⟩ := Prod.mk.inj (Except.ok.inj h)
    exact hrefl t
  | cons rule rules ih =>
    rw [List.forall_mem_cons] at hrules
    obtain ⟨t₁, names₁, hrule, h⟩ := of_applyRules_cons h
    exact htrans (hrules.1 hrule) (ih hrules.2 h)

theorem chain_all [Nonces] (hids : ∀ id ∈ ctx.ids.ids, id ≠ []) :
    Chain ctx EscapesHidden RepairRule.all := by
  refine .cons spares_stripBracketMarks ?_
  refine .cons spares_removeEmptyLabels ?_
  refine .cons spares_straightenQuotes ?_
  refine .cons spares_stripInnerQuotes ?_
  refine .cons spares_mergeTrailingComments ?_
  refine .cons spares_fixInvalidArrows ?_
  refine .cons (spares_perLine sparesTokens_fixReversedEdges) ?_
  refine .cons (spares_perLine sparesTokens_fixMisplacedPipes) ?_
  refine .cons (spares_perLine sparesTokens_fixMalformedArrowLabels) ?_
  refine .cons (spares_perLine sparesTokens_relocateTrailingLabels) ?_
  refine .cons (spares_perLine sparesTokens_convertGroupLabels) ?_
  refine .cons (spares_perLine sparesTokens_mergeDoubleLabels) ?_
  refine .cons (spares_perLine sparesTokens_promoteDoubleDash) ?_
  refine .cons (spares_perLine sparesTokens_quotePipeLabels) ?_
  refine .cons (spares_perLine sparesTokens_quoteEdgeLabels) ?_
  refine .cons spares_convertNoteDirectives ?_
  refine .cons (spares_perLine sparesTokens_splitIntermediateNodes) ?_
  refine .cons (spares_splitConcatenatedLabels hids) ?_
  refine .cons (spares_perLine sparesTokens_wrapMissingBrackets) ?_
  refine .cons (spares_perLine sparesTokens_fixExcessiveBrackets) ?_
  refine .cons (spares_perLine sparesTokens_collapseDuplicateLabels) ?_
  exact .cons (spares_perLine sparesTokens_quoteUnsafeNodeLabels) .nil

theorem exists_applyRules [Nonces] (content : Text) (k : Nat) :
    ∃ t names, applyRules (.ofContent (hideEscapes content).1) (RepairRule.all.take k) {}
      (hideEscapes content).1 = .ok (t, names) ∧ SparedBlock (hideEscapes content).1 t := by
  refine (chain_all fun id hid ↦ ?_).exists_applyRules k {} fun l hl ↦ backslashAtEnd_hideEscapes hl
  exact (IdSet.isIdent_of_mem_harvest hid).1

/-- Tokens given out before the repair of a block, which can be taken neither for one that a rule
hides brackets behind nor for one that stands for an escape. -/
structure RowTokens (T : Text → Prop) : Prop extends OuterTokens T where
  foreignEscape {r : Registry} : r.tag = Text.of "ESC" → r.Foreign T

theorem RowTokens.apart [Nonces] (hT : RowTokens T) (content : Text) : (hideEscapes content).2.Apart T := by
  obtain ⟨hproper, htag⟩ := hideEscapes_registry content
  exact ⟨hproper, hT.tokenLike, hT.foreignEscape htag⟩

theorem RowTokens.outerTokens_known [Nonces] (hT : RowTokens T) (content : Text) :
    OuterTokens ((hideEscapes content).2.Known T) where
  tokenLike := (hT.apart content).tokenLike_known
  foreign {r} hr := by
    rintro k (hk | hk)
    · refine foreign_of_tag ?_ ?_ ?_ k hk
      · rw [hr]
        decide
      · rw [(hideEscapes_registry content).2]
        decide
      · rw [hr, (hideEscapes_registry content).2]
        decide
    · exact hT.foreign hr k hk

/-- The repair of a block always gives a result, and the token lines of the block are in it. -/
theorem exists_repair [Nonces] (hT : RowTokens T) (ht : TokensAlone T content) :
    ∃ r, repair content = .ok r ∧ Intact T r ∧ KeepsRows T content r := by
  obtain ⟨t, names, hrun, hspared⟩ := exists_applyRules content RepairRule.all.length
  rw [List.take_length] at hrun
  have hpieces := fun u hu ↦ of_mem_escapes (u := u) hT.tokenLike ht hu
  have hintact := hspared.intact (hT.outerTokens_known content) (intact_hideEscapes hT.tokenLike ht)
  refine ⟨(hideEscapes content).2.restore t, ?_, ?_, ?_⟩
  · rw [repair]
    simp only [hrun]
    rfl
  · exact intact_restore (hT.apart content) (fun u hu ↦ intact_of_not_mem (hpieces u hu).1) hintact
  · refine ((keepsRows_hideEscapes hT.tokenLike ht).trans (hspared.rows hT.tokenLike)).trans ?_
    -- Rows are no tokens of the escapes, so putting the escapes back does not change them.
    intro ks hks hsub
    have hself : ks.map (hideEscapes content).2.restore = ks := by
      rw [List.map_congr_left fun k hk ↦ restore_eq_self (hT.apart content)
        (hT.tokenLike.intact (hks k hk)), List.map_id']
    rw [lines_restore (hT.apart content) (fun u hu ↦ (hpieces u hu).2) hintact, ← hself]
    exact hsub.map _

end DiagramRepair
