import DiagramRepair.Proofs.Flowchart.Clean
import DiagramRepair.Proofs.Flowchart.Quoting
import DiagramRepair.Proofs.Flowchart.Names
import DiagramRepair.Proofs.Placeholder.Escapes
import DiagramRepair.Repair.Run

namespace DiagramRepair

namespace RepairRule

variable {ctx : RepairContext} {name : String} {f : Text → Text} {t : Text} {names : NoteNames}
  {rules before after : List RepairRule}

def Leaves (ctx : RepairContext) (t : Text) (rule : RepairRule) : Prop :=
  ∀ names, rule.apply ctx names t = .ok (t, names)

theorem mapLines_eq (h : ∀ l ∈ Text.lines t, f l = l) : Text.mapLines f t = t := by
  rw [Text.mapLines, List.map_congr_left h, List.map_id', Text.unlines_lines]

theorem mapM_eq {ε : Type} {g : Text → Except ε Text} {ls : List Text}
    (h : ∀ l ∈ ls, g l = .ok l) : ls.mapM g = .ok ls := by
  induction ls with
  | nil => rfl
  | cons l ls ih =>
    rw [List.mapM_cons, h l (by simp), ih fun l' hl' ↦ h l' (by simp [hl'])]
    rfl

theorem leaves_perLine (h : ∀ l ∈ Text.lines t, f l = l) : (perLine name f).Leaves ctx t := by
  intro names
  simp [perLine, mapLines_eq h]

theorem leaves_mergeTrailingComments
    (h : ∀ l ∈ Text.lines t, Rule.mergeTrailingComments l = .ok l) :
    mergeTrailingComments.Leaves ctx t := by
  intro names
  simp only [mergeTrailingComments, mapM_eq h]
  simp [Except.mapError, Text.unlines_lines, bind, Except.bind, pure, Except.pure]

theorem leaves_fixInvalidArrows (h : Rule.fixInvalidArrows t = t) :
    fixInvalidArrows.Leaves ctx t := by
  intro names
  simp [fixInvalidArrows, onFlowcharts, h]

theorem leaves_convertNoteDirectives
    (h : ∀ l ∈ Text.lines t, ∀ indent node text, ¬ Rule.IsNote l indent node text) :
    convertNoteDirectives.Leaves ctx t := by
  intro names
  have hnone : ∀ l ∈ Text.lines t, Rule.directive? l = none := fun l hl ↦
    Rule.directive?_eq_none (h l hl)
  simp [convertNoteDirectives, onFlowcharts, Rule.convertNoteDirectives_eq hnone]

theorem leaves_splitConcatenatedLabels
    (h : ∀ l ∈ Text.lines t, Rule.splitGluedTarget ctx.ids t l = .ok l) :
    splitConcatenatedLabels.Leaves ctx t := by
  intro names
  simp only [splitConcatenatedLabels, Rule.splitConcatenatedLabels, mapM_eq h]
  simp [Except.mapError, Text.unlines_lines, bind, Except.bind, pure, Except.pure]

theorem applyRules_perLine : applyRules ctx (perLine name f :: rules) names t =
    applyRules ctx rules names (Text.mapLines f t) := rfl

theorem applyRules_leaves_append (h : ∀ rule ∈ before, rule.Leaves ctx t) :
    applyRules ctx (before ++ after) names t = applyRules ctx after names t := by
  induction before with
  | nil => rfl
  | cons rule before ih =>
    rw [List.cons_append, applyRules, h rule (by simp) names]
    exact ih fun rule hrule ↦ h rule (by simp [hrule])

theorem applyRules_leaves (h : ∀ rule ∈ rules, rule.Leaves ctx t) :
    applyRules ctx rules names t = .ok (t, names) := by
  rw [← List.append_nil rules, applyRules_leaves_append h]
  rfl

end RepairRule

namespace Flowchart

open Pattern Rule RepairRule

variable {ctx : RepairContext} {known : List Text} {l t : Text} {ss : List Statement}

structure Tidy (l : Text) : Prop where
  spelled : Spelled l
  quoted : Quoted l
  single : '\n' ∉ l
  barred : Barred l
  noNote (indent node text : Text) : ¬ IsNote l indent node text

theorem tidy_header : Tidy header where
  spelled := spelled_header
  quoted := quoted_header
  single := by decide
  barred := .plain (by decide)
  noNote indent node text h := by
    obtain ⟨note, s, c, r, hline, hindent, hnote, hne, hs, -⟩ := h.exists_word
    have hfirst : indent ++ (note ++ (s ++ c :: r)) = [] ++ (Text.of "graph" ++ Text.of " TD") :=
      hline.symm
    obtain ⟨rfl, -⟩ := hnote.isIdent_note.unique hindent (by decide) ⟨by decide, by decide⟩
      (not_isIdentChar_head_blank_append hs hne) (by decide) hfirst
    exact absurd hnote.length_eq (by decide)

theorem Statement.tidy (s : Statement) : Tidy s.text where
  spelled := s.spelled
  quoted := s.quoted
  single := s.newline_not_mem
  barred := s.barred
  noNote := s.not_isNote

theorem tidy_of_mem (hl : l ∈ header :: ss.map Statement.text) : Tidy l := by
  rcases List.mem_cons.mp hl with rfl | hl
  · exact tidy_header
  · obtain ⟨s, -, rfl⟩ := List.mem_map.mp hl
    exact s.tidy

theorem Tidy.settleLabels_eq (h : Tidy l) (passes : Nat) : Line.settleLabels passes l = l := by
  cases passes with
  | zero => rfl
  | succ passes =>
    rw [Line.settleLabels, bracketQuotedLabels_eq h.quoted, cleanLabelTail_eq h.spelled]
    simp

theorem Tidy.normalize_eq (h : Tidy l) : Line.normalize l = l := by
  rw [Line.normalize]
  simp only [mergeHashComment_eq h.spelled, h.settleLabels_eq, fixBrokenEdgeLabels_eq h.spelled,
    quoteNestedBracketLabels_eq h.spelled, ite_self, quotePipeLabels_eq h.barred,
    stripLabelDecorations_eq h.spelled, cleanLabelTail_eq h.spelled]

theorem lines_block (ss : List Statement) :
    Text.lines (block ss) = header :: ss.map Statement.text :=
  Text.lines_unlines (by simp) fun _ hl ↦ (tidy_of_mem hl).single

theorem spelled_unlines {ls : List Text} (h : ∀ l ∈ ls, Spelled l) (hne : ls ≠ []) :
    Spelled (Text.unlines ls) := by
  induction ls with
  | nil => exact absurd rfl hne
  | cons l ls ih =>
    by_cases hls : ls = []
    · rw [hls, Text.unlines_singleton]
      exact h l (by simp)
    · rw [Text.unlines_cons hls, Spelled, Follows, List.append_assoc, List.cons_append,
        List.isChain_cons_split]
      exact ⟨h l (by simp), ih (fun l' hl' ↦ h l' (by simp [hl'])) hls⟩

theorem spelled_block (ss : List Statement) : Spelled (block ss) :=
  spelled_unlines (fun _ hl ↦ (tidy_of_mem hl).spelled) (by simp)

theorem leaves_of_mem_take [Nonces] (h : ∀ l ∈ Text.lines t, Tidy l) (ht : Spelled t) :
    ∀ rule ∈ RepairRule.all.take 6, rule.Leaves ctx t := by
  intro rule hrule
  simp only [RepairRule.all, List.take_succ_cons, List.take_zero, List.mem_cons, List.not_mem_nil,
    or_false] at hrule
  rcases hrule with rfl | rfl | rfl | rfl | rfl | rfl
  · exact leaves_perLine fun l hl ↦ stripBracketMarks_eq (h l hl).spelled
  · exact leaves_perLine fun l hl ↦ removeEmptyLabels_eq (h l hl).spelled
  · exact leaves_perLine fun l hl ↦ straightenQuotes_eq (h l hl).spelled
  · exact leaves_perLine fun l hl ↦ stripInnerQuotes_eq (h l hl).quoted
  · exact leaves_mergeTrailingComments fun l hl ↦ mergeTrailingComments_eq (h l hl).spelled
  · exact leaves_fixInvalidArrows (fixInvalidArrows_eq ht)

theorem leaves_of_mem_drop [Nonces] (h : ∀ l ∈ Text.lines t, Tidy l)
    (hpoints : ∀ l ∈ Text.lines t, PointsAt ctx.ids.defined l) :
    ∀ rule ∈ RepairRule.all.drop 7, rule.Leaves ctx t := by
  intro rule hrule
  simp only [RepairRule.all, List.drop_succ_cons, List.drop_zero, List.mem_cons, List.not_mem_nil,
    or_false] at hrule
  rcases hrule with rfl | rfl | rfl | rfl | rfl | rfl | rfl | rfl | rfl | rfl | rfl | rfl | rfl |
    rfl | rfl
  · exact leaves_perLine fun l hl ↦ fixMisplacedPipes_eq (h l hl).spelled
  · exact leaves_perLine fun l hl ↦ fixMalformedArrowLabels_eq (h l hl).spelled
  · exact leaves_perLine fun l hl ↦ relocateTrailingLabels_eq (h l hl).spelled (h l hl).single
  · exact leaves_perLine fun l hl ↦ convertGroupLabels_eq (hpoints l hl).forward
  · exact leaves_perLine fun l hl ↦ mergeDoubleLabels_eq (hpoints l hl).forward
  · exact leaves_perLine fun l hl ↦ promoteDoubleDash_eq (hpoints l hl).forward
  · exact leaves_perLine fun l hl ↦ quotePipeLabels_eq (h l hl).barred
  · exact leaves_perLine fun l hl ↦ quoteEdgeLabels_eq (hpoints l hl).forward
  · exact leaves_convertNoteDirectives fun l hl ↦ (h l hl).noNote
  · exact leaves_perLine fun l hl ↦ splitIntermediateNodes_eq (hpoints l hl).forward
  · exact leaves_splitConcatenatedLabels fun l hl ↦
      splitGluedTarget_eq (h l hl).spelled (hpoints l hl) t
  · exact leaves_perLine fun l hl ↦ wrapMissingBrackets_eq (h l hl).spelled (hpoints l hl)
  · exact leaves_perLine fun l hl ↦ fixExcessiveBrackets_eq (h l hl).spelled
  · exact leaves_perLine fun l hl ↦ collapseDuplicateLabels_eq (h l hl).spelled
  · exact leaves_perLine fun l hl ↦ quoteUnsafeNodeLabels_eq (h l hl).spelled

theorem introduces_of_targets_turned {s : Statement} {name : Name}
    (h : s.turned.form.Targets name) : s.form.Targets name ∨ s.form.Introduces name := by
  generalize hform : s.form = form
  rw [Statement.turned, hform] at h
  cases form with
  | node | edge => exact .inl h
  | reversed left right =>
    cases h
    exact .inr .left

theorem pointsAt_header : PointsAt known header := .inl (by decide)

theorem name_mem_harvest {s : Statement} {name : Name} (hs : s ∈ ss)
    (h : s.form.Introduces name) : name.text ∈ (IdSet.harvest (block ss)).defined := by
  refine IdSet.mem_defined_harvest ?_ s.isStatement (mem_definedIn_of_introduces h)
    name.not_keyword
  rw [lines_block]
  exact List.mem_cons_of_mem _ (List.mem_map_of_mem hs)

theorem pointsAt_of_mem (h : TargetsKnown ss)
    (hl : l ∈ Text.lines (block (ss.map Statement.turned))) :
    PointsAt (IdSet.harvest (block ss)).defined l := by
  rw [lines_block, List.mem_cons, List.mem_map] at hl
  rcases hl with rfl | ⟨_, hturned, rfl⟩
  · exact pointsAt_header
  · obtain ⟨s, hs, rfl⟩ := List.mem_map.mp hturned
    refine Statement.pointsAt (Form.turned_ne_reversed s.form) fun name hname ↦ ?_
    rcases introduces_of_targets_turned hname with htarget | hintroduces
    · obtain ⟨s', hs', hintroduces⟩ := h s hs name htarget
      exact name_mem_harvest hs' hintroduces
    · exact name_mem_harvest hs hintroduces

theorem mapLines_fixReversedEdges (ss : List Statement) :
    Text.mapLines fixReversedEdges (block ss) = block (ss.map Statement.turned) := by
  have hheader : fixReversedEdges header = header := fixReversedEdges_eq (by decide)
  rw [Text.mapLines, lines_block, List.map_cons, hheader, block]
  simp [Function.comp_def, fixReversedEdges_text]

theorem applyRules_block [Nonces] (h : TargetsKnown ss) (hids : ctx.ids = .harvest (block ss))
    (names : NoteNames) : applyRules ctx RepairRule.all names (block ss) =
      .ok (block (ss.map Statement.turned), names) := by
  have htidy : ∀ (ss : List Statement), ∀ l ∈ Text.lines (block ss), Tidy l := by
    intro ss l hl
    rw [lines_block] at hl
    exact tidy_of_mem hl
  have hcut : RepairRule.all = RepairRule.all.take 6 ++
      perLine "fix_reversed_edges" fixReversedEdges :: RepairRule.all.drop 7 := rfl
  rw [hcut, applyRules_leaves_append (leaves_of_mem_take (htidy ss) (spelled_block ss)),
    applyRules_perLine, mapLines_fixReversedEdges]
  exact applyRules_leaves (leaves_of_mem_drop (htidy _) fun l hl ↦ hids ▸ pointsAt_of_mem h hl)

/-- A well-formed flowchart is in normal form, and its repair turns the reversed edges and leaves
every other line as it is. -/
theorem repair_block [Nonces] (ss : List Statement) (h : TargetsKnown ss) :
    (∀ l ∈ Text.lines (block ss), Line.normalize l = l) ∧
      repair (block ss) = .ok (block (ss.map Statement.turned)) := by
  refine ⟨fun l hl ↦ ?_, ?_⟩
  · rw [lines_block] at hl
    exact (tidy_of_mem hl).normalize_eq
  · have hspelled := spelled_block ss
    have hshown : (hideEscapes (block ss)).1 = block ss :=
      hideEscapes_of_not_mem (hspelled.not_mem (by decide)) (hspelled.not_mem (by decide))
    have hopen : Registry.tokenOpen ∉ block (ss.map Statement.turned) :=
      (spelled_block _).not_mem (by decide)
    have hrun : applyRules (.ofContent (block ss)) RepairRule.all {} (block ss) =
        .ok (block (ss.map Statement.turned), {}) := applyRules_block h rfl {}
    rw [repair]
    simp only [hshown, hrun]
    simp [Registry.restore_of_not_mem hopen, bind, Except.bind, pure, Except.pure]

section

attribute [local instance] Nonces.zeros

theorem repair_block_reversed :
    ∃ ss, TargetsKnown ss ∧ block ss = Text.of "graph TD\nA --> B\n  B[\"x, 1\"] <-- A;" ∧
      repair (Text.of "graph TD\nA --> B\n  B[\"x, 1\"] <-- A;") =
        .ok (Text.of "graph TD\nA --> B\n  A --> B[\"x, 1\"];") := by
  let a : Name := ⟨Text.of "A", by decide, by decide, by decide⟩
  let b : Name := ⟨Text.of "B", by decide, by decide, by decide⟩
  let label : Label := ⟨Text.of "x, 1", by decide, 'x', by decide, by decide⟩
  let plain : Statement := { form := .edge ⟨a, none⟩ .bare ⟨b, none⟩ }
  let reversed : Statement :=
    { indent := 2, form := .reversed ⟨b, some label⟩ ⟨a, none⟩, terminated := true }
  have hknown : TargetsKnown [plain, reversed] := by
    intro s hs name hname
    rcases List.mem_pair.mp hs with rfl | rfl
    · cases hname
      exact ⟨reversed, by simp, .left⟩
    · cases hname
  exact ⟨[plain, reversed], hknown, rfl, (repair_block [plain, reversed] hknown).2⟩

end

end Flowchart

end DiagramRepair
