import DiagramRepair.Repair.Rule
import DiagramRepair.Proofs.Placeholder.Escapes
import DiagramRepair.Proofs.Rule.Tokens

namespace DiagramRepair

open Pattern Registry Rule

variable {T : Text → Prop} {E : (b u r v : Text) → Prop} {R : Text → Text → Prop}
  {f : Text → Text} {l l' t t' : Text} {ls ls' ks done done' : List Text}

structure SparedLine (l l' : Text) : Prop where
  intact {T : Text → Prop} : OuterTokens T → Intact T l → Intact T l'
  fixed : (∀ c ∈ l, isTokenChar c) → l' = l

structure SparedBlock (t t' : Text) : Prop where
  intact {T : Text → Prop} : OuterTokens T → Intact T t → Intact T t'
  rows {T : Text → Prop} : TokenLike T → KeepsRows T t t'

theorem SparedBlock.refl (t : Text) : SparedBlock t t := ⟨fun _ h ↦ h, fun _ ↦ .refl _ t⟩

theorem SparedBlock.trans {t'' : Text} (h : SparedBlock t t') (h' : SparedBlock t' t'') :
    SparedBlock t t'' :=
  ⟨fun hT ht ↦ h'.intact hT (h.intact hT ht), fun hT ↦ (h.rows hT).trans (h'.rows hT)⟩

theorem SparesTokens.sparedLine (hf : SparesTokens f) (l : Text) : SparedLine l (f l) :=
  ⟨hf.intact, hf.fixes⟩

theorem SparesLine.sparedLine (hR : SparesLine R) (h : l' = l ∨ R l l') : SparedLine l l' := by
  rcases h with rfl | h
  · exact ⟨fun _ hl ↦ hl, fun _ ↦ rfl⟩
  · refine ⟨fun hT hl ↦ hR.intact hT.tokenLike h hl, fun hl ↦ ?_⟩
    obtain ⟨c, hc, hno⟩ := hR.breaks h
    simp [hl c hc] at hno

theorem sparedBlock_unlines (h : List.Forall₂ SparedLine (Text.lines t) ls) :
    SparedBlock t (Text.unlines ls) where
  intact {T} hT ht := by
    refine (intact_unlines hT.tokenLike).mpr fun l' hl' ↦ ?_
    obtain ⟨l, hl, hspared⟩ := exists_of_forall₂ h hl'
    exact hspared.intact hT ((intact_iff_lines hT.tokenLike).mp ht l hl)
  rows {T} hT ks hks hsub := by
    have hls : ls ≠ [] := by
      rintro rfl
      exact Text.lines_ne_nil t (List.forall₂_nil_right_iff.mp h)
    refine sublist_lines_unlines hT hks hls (sublist_of_forall₂ h (fun k hk l hl ↦ ?_) hsub)
    exact hl.fixed fun c hc ↦ isTokenChar_of_mem hT (hks k hk) hc

theorem SparesTokens.sparedBlock (hf : SparesTokens f) (t : Text) :
    SparedBlock t (Text.mapLines f t) := by
  refine sparedBlock_unlines ?_
  rw [List.forall₂_map_right_iff, List.forall₂_same]
  exact fun l _ ↦ hf.sparedLine l

theorem sublist_append_of_not_mem {ls₁ ls₂ : List Text} (hl : l ∉ ks)
    (h : ks.Sublist (ls₁ ++ l :: ls₂)) : ks.Sublist (ls₁ ++ ls₂) := by
  obtain ⟨ks₁, ks₂, rfl, h₁, h₂⟩ := List.sublist_append_iff.mp h
  rcases List.sublist_cons_iff.mp h₂ with h₂ | ⟨ks₃, rfl, -⟩
  · exact h₁.append h₂
  · simp at hl

theorem not_mem_of_breaks (hT : TokenLike T) (hks : ∀ k ∈ ks, T k)
    (hl : ∃ c ∈ l, isTokenChar c = false) : l ∉ ks := by
  intro hmem
  obtain ⟨c, hc, hno⟩ := hl
  simp [isTokenChar_of_mem hT (hks l hmem) hc] at hno

theorem Rule.IsNote.breaks {indent node text : Text} (h : IsNote l indent node text) :
    ∃ c ∈ l, isTokenChar c = false := by
  cases h with
  | side hindent hnote hs hside hs₁ hof hs₂ hid hs₃ hs₄ htext hs₅ he =>
    exact ⟨':', by simp [Text.of], by decide⟩
  | quoted hindent hnote hs hparticle hid hs₁ hcolon hs₂ htext hs₃ hsemicolon hs₄ he =>
    exact ⟨'"', by simp [Text.of], by decide⟩

theorem Rule.LabelsPlainEdge.breaks {text : Text} (h : LabelsPlainEdge text l l') :
    ∃ c ∈ l, isTokenChar c = false := by
  obtain ⟨hindent, hsource, hlabel, hs, harrow, hs', htarget, hrest, he⟩ := h
  refine ⟨'-', ?_, by decide⟩
  rcases harrow with rfl | rfl <;> simp [Text.of]

theorem Rule.ConvertsNote.sublist (h : ConvertsNote done l done') (hT : TokenLike T)
    (hks : ∀ k ∈ ks, T k) (hsub : ks.Sublist (done.reverse ++ l :: ls)) :
    ks.Sublist (done'.reverse ++ ls) := by
  cases h with
  | keep => simpa using hsub
  | attach hnote hdone hedge =>
    subst hdone
    have hrest := sublist_append_of_not_mem (not_mem_of_breaks hT hks hnote.breaks) hsub
    simp only [List.reverse_append, List.reverse_cons, List.append_assoc, List.cons_append,
      List.nil_append] at hrest ⊢
    refine (sublist_append_of_not_mem (not_mem_of_breaks hT hks hedge.breaks) hrest).trans ?_
    exact (List.Sublist.refl _).append (List.sublist_cons_self _ _)
  | node hnote hname =>
    have hrest := sublist_append_of_not_mem (not_mem_of_breaks hT hks hnote.breaks) hsub
    rw [List.reverse_append, List.append_assoc]
    exact hrest.trans ((List.Sublist.refl _).append (List.sublist_append_right _ _))

theorem sublist_convertNoteLines (ids : List Text) (names : NoteNames) (hT : TokenLike T)
    (hks : ∀ k ∈ ks, T k) (hsub : ks.Sublist (done.reverse ++ ls)) :
    ks.Sublist (convertNoteLines ids done names ls).1 := by
  induction ls generalizing done names with
  | nil => simpa [convertNoteLines] using hsub
  | cons l ls ih =>
    rw [convertNoteLines]
    exact ih _ ((convertsNote ids done names l).sublist hT hks hsub)

namespace RepairRule

/-- From a text with the first property the rule gets to one with the second, tokens spared. -/
def Spares (ctx : RepairContext) (rule : RepairRule) (P Q : Text → Prop) : Prop :=
  ∀ names t, P t → ∃ t' names', rule.apply ctx names t = .ok (t', names') ∧ Q t' ∧ SparedBlock t t'

def EscapesHidden (t : Text) : Prop := ∀ l ∈ Text.lines t, Text.BackslashAtEnd l

abbrev AnyText (_ : Text) : Prop := True

variable {ctx : RepairContext}

theorem spares_perLine {name : String} (hf : SparesTokens f) :
    Spares ctx (perLine name f) AnyText AnyText :=
  fun names t _ ↦ ⟨_, names, rfl, trivial, hf.sparedBlock t⟩

theorem spares_cleaning {name : String} (hf : SparesTokens f)
    (hback : ∀ l, Text.BackslashAtEnd l → Text.BackslashAtEnd (f l)) :
    Spares ctx (perLine name f) EscapesHidden EscapesHidden := by
  refine fun names t ht ↦ ⟨_, names, rfl, fun l' hl' ↦ ?_, hf.sparedBlock t⟩
  rw [Text.lines_mapLines, List.mem_flatMap] at hl'
  obtain ⟨l, hl, hl'⟩ := hl'
  exact (hback l (ht l hl)).sublist (Text.sublist_of_mem_lines hl')

theorem spares_stripBracketMarks {name : String} :
    Spares ctx (perLine name stripBracketMarks) EscapesHidden EscapesHidden := by
  refine spares_cleaning sparesTokens_stripBracketMarks fun l hl ↦ hl.sublist ?_
  exact (stripBracketMarks_edits l).sublist fun he ↦ by
    obtain ⟨-, -⟩ := he
    exact List.nil_sublist _

theorem spares_removeEmptyLabels {name : String} :
    Spares ctx (perLine name removeEmptyLabels) EscapesHidden EscapesHidden := by
  refine spares_cleaning sparesTokens_removeEmptyLabels fun l hl ↦ hl.sublist ?_
  exact (removeEmptyLabels_edits l).sublist fun he ↦ by
    cases he <;> exact List.nil_sublist _

theorem spares_straightenQuotes {name : String} :
    Spares ctx (perLine name straightenQuotes) EscapesHidden EscapesHidden := by
  refine spares_cleaning sparesTokens_straightenQuotes fun l hl ↦ hl.map fun c hc ↦ ?_
  rcases straightQuote_cases c with h | h | h
  · rwa [h] at hc
  · exact absurd (h.symm.trans hc) (by decide)
  · exact absurd (h.symm.trans hc) (by decide)

theorem spares_stripInnerQuotes {name : String} :
    Spares ctx (perLine name stripInnerQuotes) EscapesHidden EscapesHidden := by
  refine spares_cleaning sparesTokens_stripInnerQuotes fun l hl ↦ hl.sublist ?_
  exact (stripInnerQuotes_edits l).sublist fun he ↦ by
    obtain ⟨-⟩ := he
    exact ((List.filter_sublist.append (.refl _)).cons_cons _).cons_cons _

theorem exists_mapM {ε : Type} {g : Text → Except ε Text}
    (h : ∀ l ∈ ls, ∃ l', g l = .ok l' ∧ R l l') :
    ∃ ls', ls.mapM g = .ok ls' ∧ List.Forall₂ R ls ls' := by
  induction ls with
  | nil => exact ⟨[], rfl, .nil⟩
  | cons l ls ih =>
    obtain ⟨l', hl', hR⟩ := h l (by simp)
    obtain ⟨ls', hls', hrest⟩ := ih fun l hl ↦ h l (by simp [hl])
    refine ⟨l' :: ls', ?_, .cons hR hrest⟩
    rw [List.mapM_cons, hl', hls']
    rfl

theorem forall₂_of_mapM {ε : Type} {g : Text → Except ε Text} {R : Text → Text → Prop}
    (hR : ∀ l ∈ ls, ∀ l', g l = .ok l' → R l l') (h : ls.mapM g = .ok ls') :
    List.Forall₂ R ls ls' := by
  induction ls generalizing ls' with
  | nil =>
    obtain rfl : [] = ls' := Except.ok.inj h
    exact .nil
  | cons l ls ih =>
    rw [List.forall_mem_cons] at hR
    rw [List.mapM_cons] at h
    cases hl : g l with
    | error fault =>
      rw [hl] at h
      cases h
    | ok l' =>
      cases hls : ls.mapM g with
      | error fault =>
        rw [hl, hls] at h
        cases h
      | ok rest =>
        rw [hl, hls] at h
        obtain rfl : l' :: rest = ls' := Except.ok.inj h
        exact .cons (hR.1 l' hl) (ih hR.2 hls)

theorem exists_of_mergeTrailingComments {names names' : NoteNames} (ht : EscapesHidden t)
    (h : mergeTrailingComments.apply ctx names t = .ok (t', names')) :
    ∃ ls, t' = Text.unlines ls ∧
      List.Forall₂ (fun l l' ↦ l' = l ∨ MergesComment l l') (Text.lines t) ls := by
  simp only [mergeTrailingComments] at h
  cases hls : (Text.lines t).mapM Rule.mergeTrailingComments with
  | error fault =>
    rw [hls] at h
    cases h
  | ok ls =>
    rw [hls] at h
    obtain ⟨rfl, -⟩ := Prod.mk.inj (Except.ok.inj h)
    refine ⟨ls, rfl, forall₂_of_mapM (fun l hmem l' hl ↦ ?_) hls⟩
    obtain ⟨l'', hl'', hcases⟩ := mergeTrailingComments_ok (ht l hmem)
    obtain rfl := Except.ok.inj (hl.symm.trans hl'')
    exact hcases

theorem exists_of_splitConcatenatedLabels {names names' : NoteNames}
    (hids : ∀ id ∈ ctx.ids.ids, id ≠ [])
    (h : splitConcatenatedLabels.apply ctx names t = .ok (t', names')) :
    ∃ ls, t' = Text.unlines ls ∧
      List.Forall₂ (fun l l' ↦ l' = l ∨ SplitsTarget l l') (Text.lines t) ls := by
  simp only [splitConcatenatedLabels, Rule.splitConcatenatedLabels] at h
  cases hls : (Text.lines t).mapM (splitGluedTarget ctx.ids t) with
  | error fault =>
    rw [hls] at h
    cases h
  | ok ls =>
    rw [hls] at h
    obtain ⟨rfl, -⟩ := Prod.mk.inj (Except.ok.inj h)
    refine ⟨ls, rfl, forall₂_of_mapM (fun l _ l' hl ↦ ?_) hls⟩
    obtain ⟨l'', hl'', hcases⟩ := splitGluedTarget_ok hids t l
    obtain rfl := Except.ok.inj (hl.symm.trans hl'')
    exact hcases

theorem spares_mergeTrailingComments : Spares ctx mergeTrailingComments EscapesHidden AnyText := by
  intro names t ht
  obtain ⟨ls, hls, hspared⟩ := exists_mapM (g := Rule.mergeTrailingComments) fun l hl ↦ by
    obtain ⟨l', hl', hcases⟩ := mergeTrailingComments_ok (ht l hl)
    exact ⟨l', hl', sparesLine_mergesComment.sparedLine hcases⟩
  refine ⟨Text.unlines ls, names, ?_, trivial, sparedBlock_unlines hspared⟩
  simp only [mergeTrailingComments, hls]
  rfl

/-- The identifiers of a block are not empty, so there is always a first letter to look at. -/
theorem spares_splitConcatenatedLabels (hids : ∀ id ∈ ctx.ids.ids, id ≠ []) :
    Spares ctx splitConcatenatedLabels AnyText AnyText := by
  intro names t _
  obtain ⟨ls, hls, hspared⟩ := exists_mapM (g := splitGluedTarget ctx.ids t) fun l _ ↦ by
    obtain ⟨l', hl', hcases⟩ := splitGluedTarget_ok hids t l
    exact ⟨l', hl', sparesLine_splitsTarget.sparedLine hcases⟩
  refine ⟨Text.unlines ls, names, ?_, trivial, sparedBlock_unlines hspared⟩
  simp only [splitConcatenatedLabels, Rule.splitConcatenatedLabels, hls]
  rfl

theorem rel_of_onFlowcharts {R : Text → Text → Prop} {name : String} {names names' : NoteNames}
    {g : RepairContext → NoteNames → Text → Text × NoteNames} (hrefl : ∀ t, R t t)
    (hg : ∀ names t, R t (g ctx names t).1)
    (h : (onFlowcharts name g).apply ctx names t = .ok (t', names')) : R t t' := by
  have h := Except.ok.inj h
  split at h
  · have hrule := hg names t
    rwa [h] at hrule
  · obtain ⟨rfl, -⟩ := Prod.mk.inj h
    exact hrefl t

theorem spares_onFlowcharts {name : String}
    {g : RepairContext → NoteNames → Text → Text × NoteNames}
    (hg : ∀ names t, SparedBlock t (g ctx names t).1) :
    Spares ctx (onFlowcharts name g) AnyText AnyText := by
  intro names t _
  cases hkind : ctx.kind.isFlowchart with
  | true => exact ⟨_, _, by simp [onFlowcharts, hkind]; rfl, trivial, hg names t⟩
  | false => exact ⟨t, names, by simp [onFlowcharts, hkind], trivial, .refl t⟩

theorem skirtsRows_of_isInvalidArrow {u : Text} (h : IsInvalidArrow u) : SkirtsRows u := by
  have hbegins : ∃ c v, u = c :: v ∧ isTokenChar c = false ∧ c ≠ '\n' := by
    rcases h with rfl | ⟨s, rfl, -⟩ | ⟨c, rfl | rfl, rfl⟩ | rfl | rfl
    all_goals exact ⟨_, _, rfl, by decide, by decide⟩
  refine ⟨?_, hbegins, ?_⟩
  · rcases h with rfl | ⟨s, rfl, -, hs⟩ | ⟨c, rfl | rfl, rfl⟩ | rfl | rfl
    case inr.inl =>
      have hno : tokenOpen ∉ s := not_mem_of_class hs (by decide)
      simp [hno]
      decide
    all_goals decide
  · rcases h with rfl | ⟨s, rfl, -, hs⟩ | ⟨c, rfl | rfl, rfl⟩ | rfl | rfl
    case inr.inl => simp [List.getLast?_cons]
    all_goals decide

/-- An invalid arrow may run over the end of a line, but never over a token. -/
theorem spares_fixInvalidArrows : Spares ctx fixInvalidArrows AnyText AnyText := by
  refine spares_onFlowcharts fun _ t ↦ ⟨fun hT ht ↦ ?_, fun hT ↦ ?_⟩
  · exact sparesInside_fixesInvalidArrow.intact_edits hT.tokenLike (fixInvalidArrows_edits t) ht
  · refine keepsRows_of_edits hT (fun he ↦ ?_) (fixInvalidArrows_edits t)
    obtain ⟨hu⟩ := he
    exact skirtsRows_of_isInvalidArrow hu

theorem spares_convertNoteDirectives : Spares ctx convertNoteDirectives AnyText AnyText := by
  refine spares_onFlowcharts fun names t ↦ ⟨fun hT ht ↦ ?_, fun hT ks hks hsub ↦ ?_⟩
  · refine (intact_unlines hT.tokenLike).mpr ?_
    exact intact_convertNoteLines hT.tokenLike _ _ _ _ (by simp)
      ((intact_iff_lines hT.tokenLike).mp ht)
  · have hlines : ks.Sublist (convertNoteLines ctx.ids.ids [] names (Text.lines t)).1 :=
      sublist_convertNoteLines ctx.ids.ids names hT hks hsub
    by_cases hnil : (convertNoteLines ctx.ids.ids [] names (Text.lines t)).1 = []
    · rw [hnil, List.sublist_nil] at hlines
      simp [hlines]
    · exact sublist_lines_unlines hT hks hnil hlines

end RepairRule

end DiagramRepair
