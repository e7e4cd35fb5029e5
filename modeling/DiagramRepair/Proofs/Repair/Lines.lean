import DiagramRepair.Proofs.Repair.Wording

namespace DiagramRepair

open Pattern Rule RepairRule

variable {b r t t' u w content : Text} {gs : Groups} {ctx : RepairContext} {names : NoteNames}

namespace Rule

/-- Two dashes, and the tip of their arrow on a later line; a second tip makes it none. -/
def IsBrokenArrow (u r : Text) : Prop :=
  ∃ s, u = '-' :: '-' :: (s ++ ['>']) ∧ Blank s ∧ '\n' ∈ s ∧ r.head? ≠ some '>'

def BrokenArrow (t : Text) : Prop := ∃ a u r, t = a ++ (u ++ r) ∧ IsBrokenArrow u r

theorem IsBrokenArrow.takes (h : IsBrokenArrow u r) : invalidArrowPattern.Takes b u r [] := by
  obtain ⟨s, rfl, hs, hnewline, hr⟩ := h
  refine .inl (.inl (.inl (.inr ?_)))
  simp only [takes_append_notAhead, takes_append_sign, takes_append_blanks1, takes_sign]
  refine ⟨?_, Text.of "--" ++ s, rfl, Text.of "--", s, rfl,
    ⟨List.ne_nil_of_mem hnewline, hs⟩, rfl, trivial⟩
  rintro ⟨v, w, g, rfl, rfl, -⟩
  exact hr rfl

theorem isBrokenArrow_of_takes (h : invalidArrowPattern.Takes b u r gs) (hu : '\n' ∈ u) :
    IsBrokenArrow u r := by
  obtain ⟨harrow, hr⟩ := of_takes_invalidArrowPattern h
  rcases harrow with rfl | ⟨s, rfl, -, hs⟩ | ⟨c, rfl | rfl, rfl⟩ | rfl | rfl
  case inr.inl => exact ⟨s, rfl, hs, by simpa using hu, hr hu⟩
  all_goals exact absurd hu (by decide)

/-- An invalid arrow that reaches over the start of a broken one goes over the same line feed. -/
theorem newline_mem_of_over {s r' : Text} (hw : IsInvalidArrow (w ++ t)) (ht : t ≠ [])
    (hs : Blank s) (hnewline : '\n' ∈ s) (heq : t ++ r = '-' :: '-' :: (s ++ '>' :: r')) :
    '\n' ∈ w ++ t := by
  have hbar : '|' ∉ s := hs.not_mem (by decide)
  have htip : '>' ∉ s := hs.not_mem (by decide)
  obtain ⟨c, s, rfl⟩ := List.exists_cons_of_ne_nil (List.ne_nil_of_mem hnewline)
  obtain ⟨d, t, rfl⟩ := List.exists_cons_of_ne_nil ht
  obtain ⟨rfl, heq⟩ := List.cons.inj heq
  rcases hw with hw | ⟨s', hw, hne, hs'⟩ | ⟨c', hc', hw⟩ | hw | hw
  · rcases w with _ | ⟨_, _ | ⟨_, _ | ⟨_, _ | ⟨_, w⟩⟩⟩⟩ <;> simp_all [Text.of]
  · rcases w with _ | ⟨_, _ | ⟨_, w⟩⟩
    · -- Both start at the same place, so they are the same.
      obtain ⟨-, rfl⟩ := List.cons.inj hw
      have hrest : s' ++ '>' :: r = c :: s ++ '>' :: r' := by simpa using heq
      obtain ⟨rfl, -⟩ := Text.append_cons_inj (hs'.not_mem (by decide)) htip hrest
      simpa using hnewline
    · obtain ⟨e, s', rfl⟩ := List.exists_cons_of_ne_nil hne
      have he : e = '-' := by simp_all
      exact absurd (hs' e (by simp)) (by simp [he]; decide)
    · have hdash : '-' ∈ s' ++ ['>'] := by
        rw [← (List.cons.inj (List.cons.inj hw).2).2]
        simp
      exact absurd (by simpa using hdash) (hs'.not_mem (by decide))
  · rcases w with _ | ⟨_, _ | ⟨_, w⟩⟩ <;> simp_all
  · rcases w with _ | ⟨_, _ | ⟨_, _ | ⟨_, _ | ⟨_, w⟩⟩⟩⟩ <;> simp_all [Text.of]
  · rcases w with _ | ⟨_, _ | ⟨_, w⟩⟩ <;> simp_all [Text.of]

/-- Fixing the arrows of a block leaves its lines apart just when none of the arrows is broken. -/
theorem length_lines_fixInvalidArrows (t : Text) :
    (Text.lines (fixInvalidArrows t)).length = (Text.lines t).length ↔ ¬ BrokenArrow t := by
  have hscans : Scans invalidArrowPattern [] t (invalidArrowPattern.pieces t) :=
    scans_pieces (by decide) (by decide) t
  have hcount : (Text.lines (fixInvalidArrows t)).length = (Text.lines t).length ↔
      ∀ m, .found m ∈ invalidArrowPattern.pieces t → '\n' ∉ m.whole := by
    have hnone : (Text.of "-->").count '\n' = 0 := by decide
    rw [Text.length_lines, Text.length_lines, Nat.add_right_cancel_iff]
    refine (hscans.count_eq_iff fun m _ ↦ hnone ▸ Nat.zero_le _).trans ?_
    simp only [hnone, eq_comm, List.count_eq_zero]
  rw [hcount]
  constructor
  · rintro hkeeps ⟨a, u, r, ht, hbroken⟩
    obtain ⟨s, rfl, hs, hnewline, -⟩ := id hbroken
    obtain ⟨m, w, w', hm, ⟨gs, htakes, -⟩, hwhole, hne, -, hover⟩ :=
      hscans.exists_over ht (by simp) hbroken.takes
    refine hkeeps m hm ?_
    rw [hwhole] at htakes ⊢
    exact newline_mem_of_over (of_takes_invalidArrowPattern htakes).1 hne hs hnewline
      (by simpa using hover)
  · intro hbroken m hm hnewline
    obtain ⟨⟨gs, htakes, -⟩, -⟩ := hscans.of_mem hm
    exact hbroken ⟨_, _, _, (hscans.text_of_mem hm).symm, isBrokenArrow_of_takes htakes hnewline⟩

end Rule

namespace RepairRule

def KeepsLineCount (ctx : RepairContext) (rule : RepairRule) (t : Text) : Prop :=
  ∀ {names names' : NoteNames} {t' : Text}, rule.apply ctx names t = .ok (t', names') →
    (Text.lines t').length = (Text.lines t).length

theorem WritesLine.keepsLineCount {rule : RepairRule} (h : rule.WritesLine) :
    KeepsLineCount ctx rule t := by
  obtain ⟨name, f, rfl, hf⟩ := h
  intro names names' t' happly
  obtain ⟨rfl, -⟩ := Prod.mk.inj (Except.ok.inj happly)
  have hwrites : List.Forall₂ Writes (Text.lines t) ((Text.lines t).map f) := by
    rw [List.forall₂_map_right_iff, List.forall₂_same]
    exact fun l _ ↦ hf l
  rw [Text.mapLines, lines_unlines_of_writes hwrites, List.length_map]

theorem keepsLineCount_mergeTrailingComments (ht : EscapesHidden t) :
    KeepsLineCount ctx mergeTrailingComments t := by
  intro names names' t' happly
  obtain ⟨ls, rfl, hlines⟩ := exists_of_mergeTrailingComments ht happly
  have hwrites := hlines.imp fun _ _ h ↦ writes_of_cases writes_mergesComment h
  rw [lines_unlines_of_writes hwrites, hlines.length_eq]

theorem keepsLineCount_splitConcatenatedLabels (hids : ∀ id ∈ ctx.ids.ids, id ≠ []) :
    KeepsLineCount ctx splitConcatenatedLabels t := by
  intro names names' t' happly
  obtain ⟨ls, rfl, hlines⟩ := exists_of_splitConcatenatedLabels hids happly
  have hwrites := hlines.imp fun _ _ h ↦ writes_of_cases writes_splitsTarget h
  rw [lines_unlines_of_writes hwrites, hlines.length_eq]

theorem length_lines_of_fixInvalidArrows {names' : NoteNames}
    (h : RepairRule.fixInvalidArrows.apply ctx names t = .ok (t', names')) :
    (Text.lines t').length = (Text.lines t).length ↔
      ¬ (ctx.kind.isFlowchart = true ∧ BrokenArrow t) := by
  replace h := Except.ok.inj h
  cases hkind : ctx.kind.isFlowchart with
  | true =>
    rw [if_pos hkind] at h
    obtain ⟨rfl, -⟩ := Prod.mk.inj h
    simpa using length_lines_fixInvalidArrows t
  | false =>
    rw [if_neg (by simp [hkind])] at h
    obtain ⟨rfl, -⟩ := Prod.mk.inj h
    simp

def addsLines : List String := ["convert_note_directives", "split_intermediate_nodes"]

theorem length_lines_eq_iff [Nonces] {k : Nat} {rule : RepairRule} {names₁ names₂ : NoteNames}
    (hids : ∀ id ∈ ctx.ids.ids, id ≠ []) (hcontent : EscapesHidden content)
    (hrule : RepairRule.all[k]? = some rule) (hname : rule.name ∉ addsLines)
    (hbefore : applyRules ctx (RepairRule.all.take k) names content = .ok (t, names₁))
    (happly : rule.apply ctx names₁ t = .ok (t', names₂)) :
    (Text.lines t').length = (Text.lines t).length ↔
      ¬ (rule.name = "fix_invalid_arrows" ∧ ctx.kind.isFlowchart = true ∧ BrokenArrow t) := by
  have hkept (hkeeps : rule.KeepsLineCount ctx t) (hother : rule.name ≠ "fix_invalid_arrows") :=
    iff_of_true (hkeeps happly) fun h : rule.name = "fix_invalid_arrows" ∧
      ctx.kind.isFlowchart = true ∧ BrokenArrow t ↦ hother h.1
  have hcases : k < 4 ∨ k = 4 ∨ k = 5 ∨ 6 ≤ k := by omega
  rcases hcases with hk | rfl | rfl | hk
  · have hmem : rule ∈ RepairRule.all.take 4 :=
      List.mem_of_getElem? ((List.getElem?_take_of_lt hk).trans hrule)
    have hothers : ∀ rule ∈ RepairRule.all.take 4, rule.name ≠ "fix_invalid_arrows" := by
      simp [RepairRule.all, perLine]
    exact hkept (writesLine_of_mem_take rule hmem).keepsLineCount (hothers rule hmem)
  · obtain rfl : mergeTrailingComments = rule := Option.some.inj hrule
    have ht : EscapesHidden t := of_applyRules spares_of_mem_take hcontent hbefore
    exact hkept (keepsLineCount_mergeTrailingComments ht) (by decide)
  · obtain rfl : RepairRule.fixInvalidArrows = rule := Option.some.inj hrule
    have hself : RepairRule.fixInvalidArrows.name = "fix_invalid_arrows" := rfl
    simpa [hself] using length_lines_of_fixInvalidArrows happly
  · have hmem : rule ∈ RepairRule.all.drop 6 := by
      refine List.mem_of_getElem? (i := k - 6) ?_
      rw [List.getElem?_drop, Nat.add_sub_cancel' hk, hrule]
    have hothers : ∀ rule ∈ RepairRule.all.drop 6, rule.name ≠ "fix_invalid_arrows" := by
      simp [RepairRule.all, perLine, convertNoteDirectives, onFlowcharts, splitConcatenatedLabels]
    rcases cases_of_mem_drop rule hmem with h | rfl | rfl | rfl
    · exact hkept h.keepsLineCount (hothers rule hmem)
    · exact absurd (by decide) hname
    · exact absurd (by decide) hname
    · exact hkept (keepsLineCount_splitConcatenatedLabels hids) (by decide)

/-- In a repair, every rule but those that add lines makes as many lines as it is given, unless it
fixes the arrows of a flowchart and one of them is broken over lines. -/
theorem length_lines_of_repair [Nonces] (content : Text) {k : Nat} {rule : RepairRule}
    (hrule : RepairRule.all[k]? = some rule) (hname : rule.name ∉ addsLines) :
    let shown := (hideEscapes content).1
    let ctx := RepairContext.ofContent shown
    ∃ t names t' names', applyRules ctx (RepairRule.all.take k) {} shown = .ok (t, names) ∧
      rule.apply ctx names t = .ok (t', names') ∧
      ((Text.lines t').length = (Text.lines t).length ↔
        ¬ (rule.name = "fix_invalid_arrows" ∧ ctx.kind.isFlowchart = true ∧ BrokenArrow t)) := by
  intro shown ctx
  obtain ⟨t', names', hrun, -⟩ := exists_applyRules content (k + 1)
  rw [List.take_add_one, hrule] at hrun
  obtain ⟨t, names, hbefore, hrun⟩ := of_applyRules_append hrun
  obtain ⟨t'', names'', happly, hdone⟩ := of_applyRules_cons hrun
  refine ⟨t, names, t'', names'', hbefore, happly, ?_⟩
  exact length_lines_eq_iff (fun id hid ↦ (IdSet.isIdent_of_mem_harvest hid).1)
    (fun l hl ↦ backslashAtEnd_hideEscapes hl) hrule hname hbefore happly

section

attribute [local instance] Nonces.zeros

theorem length_lines_of_repair_glued :
    (RepairRule.all[17]? = some splitConcatenatedLabels ∧
      splitConcatenatedLabels.name ∉ addsLines) ∧
    let shown := (hideEscapes (Text.of "A --> SplitSplit it\nB")).1
    let ctx := RepairContext.ofContent shown
    ∃ t names t' names', applyRules ctx (RepairRule.all.take 17) {} shown = .ok (t, names) ∧
      splitConcatenatedLabels.apply ctx names t = .ok (t', names') ∧
      ((Text.lines t').length = (Text.lines t).length ↔
        ¬ (splitConcatenatedLabels.name = "fix_invalid_arrows" ∧ ctx.kind.isFlowchart = true ∧
          BrokenArrow t)) :=
  ⟨⟨rfl, by decide⟩, length_lines_of_repair _ rfl (by decide)⟩

/-- An arrow that is broken over two lines makes one line of them. -/
theorem exists_length_lines_ne : ¬ ∀ (content : Text) (k : Nat) (rule : RepairRule),
    RepairRule.all[k]? = some rule → rule.name ∉ addsLines →
    ∀ (t t' : Text) (names names' : NoteNames),
      applyRules (.ofContent (hideEscapes content).1) (RepairRule.all.take k) {}
        (hideEscapes content).1 = .ok (t, names) →
      rule.apply (.ofContent (hideEscapes content).1) names t = .ok (t', names') →
      (Text.lines t').length = (Text.lines t).length := by
  intro h
  have hlines := h (Text.of "A --\n> B") 5 _ rfl (by decide) (Text.of "A --\n> B")
    (Text.of "A --> B") {} {} rfl rfl
  exact absurd hlines (by decide)

end

/-- The rule about glued labels always gives a result. It leaves a line as it is, or it puts
brackets and quotes around what follows a known or repeated start of the target of an edge. -/
theorem splitConcatenatedLabels_inserts (hids : ∀ id ∈ ctx.ids.ids, id ≠ []) (names : NoteNames)
    (content : Text) : ∃ t, splitConcatenatedLabels.apply ctx names content = .ok (t, names) ∧
      List.Forall₂ (fun l l' ↦ l' = l ∨ ¬ Text.of "subgraph" <:+: l ∧ SplitsGlued ctx.ids l l')
        (Text.lines content) (Text.lines t) := by
  have hwrites : ∀ {l l' : Text}, ¬ Text.of "subgraph" <:+: l ∧ SplitsGlued ctx.ids l l' →
      Writes l l' := fun h ↦ writes_splitsTarget h.2.splitsTarget
  exact splitConcatenatedLabels_lines (writes_of_cases hwrites)
    (fun l _ ↦ splitGluedTarget_cases hids content l) names

theorem splitConcatenatedLabels_inserts_both :
    let ctx : RepairContext := ⟨⟨[Text.of "Split", Text.of "S"], [Text.of "S"]⟩, .flowchart⟩
    let content := Text.of "A --> Splitting into it ; \nB -->|x| NodeNode"
    (∀ id ∈ ctx.ids.ids, id ≠ []) ∧
    splitConcatenatedLabels.apply ctx {} content =
      .ok (Text.of "A --> Split[\"ting into it\"] ; \nB -->|x| Node[\"Node\"]", {}) ∧
    ∃ t, splitConcatenatedLabels.apply ctx {} content = .ok (t, {}) ∧
      List.Forall₂ (fun l l' ↦ l' = l ∨ ¬ Text.of "subgraph" <:+: l ∧ SplitsGlued ctx.ids l l')
        (Text.lines content) (Text.lines t) := by
  intro ctx content
  exact ⟨by decide, rfl, splitConcatenatedLabels_inserts (by decide) {} content⟩

end RepairRule

end DiagramRepair
