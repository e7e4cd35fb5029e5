import DiagramRepair.Proofs.Repair.Run

namespace DiagramRepair

open Pattern RepairRule

variable {P : Text → Prop} {ctx : RepairContext} {rules before after : List RepairRule}
  {names names' : NoteNames} {content t t' : Text}

/-- What the rules take for granted where they look something up. -/
structure LookupsSucceed : Prop where
  closing {t : Text} {n : Nat} : Brackets.square.closing? t = some n → n < t.length
  lastLabel {line : Text} {m : Match} : m ∈ Rule.duplicateLabelsPattern.findAll line →
    ((Rule.quotedBracketLabel ++ lastLineEnd).search? (m.group "labels")).isSome
  groupLabel {line : Text} {m : Match} : m ∈ Rule.groupLabelPattern.findAll line →
    (m.group? "name").isSome ∨ (m.group? "label").isSome
  remainder {ids : IdSet} {token start : Text} : ids.longestPrefix? token = some start →
    token.drop start.length ≠ []
  noteName (names : NoteNames) (ids : List Text) (node : Text) :
    (names.next ids node).1 ∉ names.taken ++ ids

theorem lookupsSucceed : LookupsSucceed where
  closing h := by
    obtain ⟨o, x, c, r, rfl, -, -, rfl⟩ := Brackets.exists_of_closing? h
    simp
  lastLabel hm := Rule.isSome_search?_labels (of_mem_findAll (by decide) (by decide) hm)
  groupLabel hm := Rule.isSome_group?_of_groupLabelPattern
    (of_mem_findAll (by decide) (by decide) hm)
  remainder h := IdSet.drop_longestPrefix?_ne_nil h
  noteName := next_not_mem

theorem RepairRule.Spares.of_apply {Q : Text → Prop} {rule : RepairRule}
    (h : rule.Spares ctx P Q) (ht : P t) (happly : rule.apply ctx names t = .ok (t', names')) :
    Q t' := by
  obtain ⟨t'', names'', hok, hQ, -⟩ := h names t ht
  have heq := Except.ok.inj (happly.symm.trans hok)
  rwa [(Prod.mk.inj heq).1]

theorem of_applyRules (hrules : ∀ rule ∈ rules, rule.Spares ctx P P) (ht : P t)
    (h : applyRules ctx rules names t = .ok (t', names')) : P t' := by
  induction rules generalizing names t with
  | nil =>
    have heq := Except.ok.inj h
    rwa [← (Prod.mk.inj heq).1]
  | cons rule rules ih =>
    obtain ⟨t₁, names₁, happly, h⟩ := of_applyRules_cons h
    have ht₁ := (hrules rule (by simp)).of_apply ht happly
    exact ih (fun rule hrule ↦ hrules rule (by simp [hrule])) ht₁ h

/-- Comments are merged by one rule only, the fifth. -/
theorem eq_take_of_all_eq [Nonces] (h : RepairRule.all = before ++ mergeTrailingComments :: after) :
    before = RepairRule.all.take 4 := by
  have hname : (RepairRule.all.map (·.name))[before.length]? = some "merge_trailing_comments" := by
    rw [h, List.map_append, List.getElem?_append_right (by simp)]
    simp [mergeTrailingComments]
  have hbound : before.length < RepairRule.all.length := by simp [h]
  -- The names are the same whatever numbers are drawn, so they are looked up in a closed list.
  have hnames : RepairRule.all.map (·.name) = (@RepairRule.all .zeros).map (·.name) := rfl
  have hfifth : ∀ k < 22, ((@RepairRule.all .zeros).map (·.name))[k]? =
      some "merge_trailing_comments" → k = 4 := by decide
  have hlength := hfifth before.length hbound (hnames ▸ hname)
  rw [h, ← hlength, List.take_left]

theorem spares_of_mem_take [Nonces] (rule : RepairRule) (h : rule ∈ RepairRule.all.take 4) :
    rule.Spares ctx EscapesHidden EscapesHidden := by
  simp only [RepairRule.all, List.take_succ_cons, List.take_zero, List.mem_cons, List.not_mem_nil,
    or_false] at h
  rcases h with rfl | rfl | rfl | rfl
  · exact spares_stripBracketMarks
  · exact spares_removeEmptyLabels
  · exact spares_straightenQuotes
  · exact spares_stripInnerQuotes

namespace Rule

structure IsBareEdge (body : Text) : Prop where
  arrow : Text.includes (Text.of "-->") body
  not_quoted : quotedEdgeLabelPattern.occursIn body = false
  not_unquoted : unquotedEdgeLabelPattern.occursIn body = false

theorem mergeTrailingComments_bare {line : Text} {m : Match} (hline : Text.BackslashAtEnd line)
    (hm : trailingCommentPattern.match? line = some m) (hbody : IsBareEdge (m.group "body")) :
    mergeTrailingComments line = .ok (bareEdgePattern.replaceFirst
      (fun _ ↦ Text.of " -- \"" ++ singleQuotes (m.group "comment") ++ Text.of "\" -->")
      (m.group "body")) := by
  have hcomment := (hline.sublist (of_trailingCommentPattern hm).1.sublist).singleQuotes
  rw [mergeTrailingComments, hm]
  simp only [hbody.arrow, hbody.not_quoted, hbody.not_unquoted, Bool.not_true, Bool.false_eq_true,
    if_false]
  exact labelBareEdge_eq hcomment _

/-- An escape in the comment would be read as one, so the rule must not see it. -/
example : labelBareEdge (Text.of "\\d") (Text.of "A --> B;") = .error (.badEscape 'd' 5) := by
  decide +kernel

end Rule

/-- Every repair gives a text. A comment that becomes the label of an edge on the way, though it is
read as a template, stands in the label as it is written but for its quotes. -/
theorem repair_total [Nonces] (content : Text) :
    (∃ t, repair content = .ok t) ∧ LookupsSucceed ∧
      ∀ {before after : List RepairRule} {t : Text} {names : NoteNames} {line : Text} {m : Match},
        RepairRule.all = before ++ mergeTrailingComments :: after →
        applyRules (.ofContent (hideEscapes content).1) before {} (hideEscapes content).1 =
          .ok (t, names) →
        line ∈ Text.lines t → Rule.trailingCommentPattern.match? line = some m →
        Rule.IsBareEdge (m.group "body") →
        Rule.mergeTrailingComments line = .ok (Rule.bareEdgePattern.replaceFirst
          (fun _ ↦ Text.of " -- \"" ++ Rule.singleQuotes (m.group "comment") ++ Text.of "\" -->")
          (m.group "body")) := by
  refine ⟨?_, lookupsSucceed, fun hall hrun hline hm hbody ↦ ?_⟩
  · obtain ⟨t, names, hrun, -⟩ := exists_applyRules content RepairRule.all.length
    rw [List.take_length] at hrun
    refine ⟨(hideEscapes content).2.restore t, ?_⟩
    rw [repair]
    simp only [hrun]
    rfl
  · obtain rfl := eq_take_of_all_eq hall
    have hhidden := of_applyRules spares_of_mem_take (fun l hl ↦ backslashAtEnd_hideEscapes hl) hrun
    exact Rule.mergeTrailingComments_bare (hhidden _ hline) hm hbody

section

attribute [local instance] Nonces.zeros

theorem repair_total_backslash :
    ∃ m, Rule.trailingCommentPattern.match? (Text.of "A --> B; % \"x\" \\") = some m ∧
      Rule.IsBareEdge (m.group "body") ∧
      Rule.mergeTrailingComments (Text.of "A --> B; % \"x\" \\") =
        .ok (Text.of "A -- \"'x' \\\" --> B;") := by
  have hall : RepairRule.all =
      RepairRule.all.take 4 ++ mergeTrailingComments :: RepairRule.all.drop 5 := rfl
  have hbody : Rule.IsBareEdge (Text.of "A --> B;") := ⟨by decide, by decide, by decide⟩
  refine ⟨_, rfl, hbody, ?_⟩
  refine ((repair_total (Text.of "A --> B; % \"x\" \\")).2.2 hall rfl
    (List.mem_singleton.mpr rfl) rfl hbody).trans ?_
  rfl

end

end DiagramRepair
