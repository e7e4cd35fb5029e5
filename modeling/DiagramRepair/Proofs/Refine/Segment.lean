import DiagramRepair.Proofs.Refine.Rows

namespace DiagramRepair

open Registry

variable {T : Text → Prop} {c : Checker} {asked : Asked} {s s' : Segment} {b : Block}
  {t t' r : Text} {segments segments' : List Segment}

namespace Segment

def contents (segments : List Segment) : List Text :=
  (segments.filterMap block?).map Block.content

/-- What the deep pass makes of a segment, given what was asked before. -/
inductive Refined [Nonces] (c : Checker) (asked : Asked) : Segment → Segment → Prop
  | text {t : Text} : Refined c asked (.text t) (.text t)
  | accepted {b : Block} (haccepts : (c.parse asked b.content).accepts) :
    Refined c asked (.diagram b) (.diagram b)
  | unchanged {b : Block} (hrejects : (c.parse asked b.content).accepts = false)
    (hrepair : repair b.content = .ok b.content) : Refined c asked (.diagram b) (.diagram b)
  | repaired {b : Block} {r : Text} (hrejects : (c.parse asked b.content).accepts = false)
    (hrepair : repair b.content = .ok r) (hr : r ≠ b.content) :
    Refined c asked (.diagram b) (.diagram (b.withContent r))

/-- The segments are refined one after the other, each after all questions about those before it. -/
inductive RefinedAll [Nonces] (c : Checker) : Asked → List Segment → List Segment → Prop
  | nil {asked : Asked} : RefinedAll c asked [] []
  | cons {asked : Asked} {s s' : Segment} {segments segments' : List Segment} :
    Refined c asked s s' → RefinedAll c (asked ++ contents [s]) segments segments' →
    RefinedAll c asked (s :: segments) (s' :: segments')

end Segment

open Segment

theorem contents_cons (s : Segment) (segments : List Segment) :
    contents (s :: segments) = contents [s] ++ contents segments := by
  cases s <;> rfl

theorem run_refineSegment_diagram [Nonces] (c : Checker) (asked : Asked) (b : Block) :
    (refineSegment c (.diagram b)).run asked =
      (if (c.parse asked b.content).accepts then .diagram b
        else if repairBlock b.content = b.content then .diagram b
        else .diagram (b.withContent (repairBlock b.content)), asked ++ [b.content]) := by
  have hask : (c.accepts b.content).run asked =
      ((c.parse asked b.content).accepts, asked ++ [b.content]) := rfl
  rw [refineSegment, StateT.run_bind, hask]
  cases (c.parse asked b.content).accepts with
  | true => rfl
  | false =>
    simp only [Bool.false_eq_true, if_false]
    split <;> rfl

theorem run_refineSegment [Nonces] (c : Checker) (asked : Asked) (s : Segment)
    (hs : ∀ b, s = .diagram b → ∃ r, repair b.content = .ok r) :
    ∃ s', (refineSegment c s).run asked = (s', asked ++ contents [s]) ∧ Refined c asked s s' := by
  cases s with
  | text t => exact ⟨.text t, congrArg (Prod.mk _) (List.append_nil asked).symm, .text⟩
  | diagram b =>
    obtain ⟨r, hrepair⟩ := hs b rfl
    have hblock : repairBlock b.content = r := by rw [repairBlock, hrepair]
    rw [run_refineSegment_diagram, hblock]
    cases haccepts : (c.parse asked b.content).accepts with
    | true => exact ⟨.diagram b, rfl, .accepted haccepts⟩
    | false =>
      rw [if_neg Bool.false_ne_true]
      by_cases hr : r = b.content
      · rw [hr] at hrepair
        rw [if_pos hr]
        exact ⟨.diagram b, rfl, .unchanged haccepts hrepair⟩
      · rw [if_neg hr]
        exact ⟨.diagram (b.withContent r), rfl, .repaired haccepts hrepair hr⟩

theorem run_refineSegments [Nonces] (c : Checker) (asked : Asked) (segments : List Segment)
    (hrepair : ∀ b, .diagram b ∈ segments → ∃ r, repair b.content = .ok r) :
    ∃ segments', (refineSegments c segments).run asked = (segments', asked ++ contents segments) ∧
      RefinedAll c asked segments segments' := by
  induction segments generalizing asked with
  | nil => exact ⟨[], congrArg (Prod.mk _) (List.append_nil asked).symm, .nil⟩
  | cons s segments ih =>
    obtain ⟨s', hs', hrefined⟩ := run_refineSegment c asked s fun b hb ↦ hrepair b (by simp [hb])
    obtain ⟨segments', hrest, hall⟩ := ih (asked ++ contents [s]) fun b hb ↦
      hrepair b (by simp [hb])
    refine ⟨s' :: segments', ?_, .cons hrefined hall⟩
    rw [refineSegments, StateT.run_bind, hs', contents_cons s segments, ← List.append_assoc]
    change (fun p ↦ (s' :: p.1, p.2)) ((refineSegments c segments).run (asked ++ contents [s])) = _
    rw [hrest]

theorem Segment.RefinedAll.forall₂ [Nonces] {Q : Segment → Segment → Prop}
    (h : RefinedAll c asked segments segments')
    (hQ : ∀ asked s s', s ∈ segments → Refined c asked s s' → Q s s') :
    List.Forall₂ Q segments segments' := by
  induction h with
  | nil => exact .nil
  | cons hs _ ih =>
    exact .cons (hQ _ _ _ (by simp) hs) (ih fun asked s s' hs ↦ hQ asked s s' (by simp [hs]))

theorem lines_render (hs : s ∈ split t) : Text.lines s.render = s.lines := by
  cases s with
  | text t => rfl
  | diagram b =>
    refine Text.lines_unlines (by simp [Block.lines]) fun l hl ↦ ?_
    exact Text.newline_not_mem_of_mem_lines (mem_lines_of_mem_split hs hl)

theorem tokensAlone_render (ht : TokensAlone T t) (hs : s ∈ split t) : TokensAlone T s.render := by
  intro l hl
  rw [lines_render hs] at hl
  exact ht l (mem_lines_of_mem_split hs hl)

theorem lines_content (hb : .diagram b ∈ split t) :
    (b.inner = [] ∧ Text.lines b.content = [[]]) ∨ Text.lines b.content = b.inner := by
  by_cases hinner : b.inner = []
  · exact .inl ⟨hinner, by rw [Block.content, hinner]; rfl⟩
  · refine .inr (Text.lines_unlines hinner fun l hl ↦ ?_)
    refine Text.newline_not_mem_of_mem_lines (mem_lines_of_mem_split hb ?_)
    simp [lines, Block.lines, hl]

theorem tokensAlone_content (ht : TokensAlone T t) (hb : .diagram b ∈ split t) :
    TokensAlone T b.content := by
  intro l hl
  rcases lines_content hb with ⟨-, hlines⟩ | hlines
  · rw [hlines, List.mem_singleton] at hl
    exact .inl (by simp [hl])
  · rw [hlines] at hl
    exact ht l (mem_lines_of_mem_split hb (by simp [lines, Block.lines, hl]))

theorem lines_withContent (b : Block) (r : Text) : (b.withContent r).lines =
    b.opening :: ((if r.isEmpty then [] else Text.lines r) ++ [b.closing.getD Fence.closing]) := rfl

theorem intact_withContent (hT : TokenLike T) (hb : ∀ l ∈ b.lines, Intact T l) (hr : Intact T r) :
    Intact T (b.withContent r).render :=
  (intact_unlines hT).mpr (Block.forall_mem_withContent hb ((intact_iff_lines hT).mp hr)
    (intact_of_not_mem (by decide)))

/-- The rows of a block are in the lines between its fences, and stay there. -/
theorem keepsRows_withContent (hT : TokenLike T) (hb : .diagram b ∈ split t)
    (hr : KeepsRows T b.content r) : KeepsRows T b.render (b.withContent r).render := by
  intro ks hks hsub
  have hlines : Text.lines b.render = [b.opening] ++ (b.inner ++ b.closing.toList) :=
    lines_render hb
  rw [hlines] at hsub
  obtain ⟨ks₁, ks', rfl, hopening, hsub'⟩ := List.sublist_append_iff.mp hsub
  obtain ⟨ks₂, ks₃, rfl, hinner, hclosing⟩ := List.sublist_append_iff.mp hsub'
  have hks₂ : ∀ k ∈ ks₂, T k := fun k hk ↦ hks k (by simp [hk])
  have hrepaired : ks₂.Sublist (if r.isEmpty then [] else Text.lines r) := by
    have hcontent : ks₂.Sublist (Text.lines b.content) := by
      rcases lines_content hb with ⟨hnil, -⟩ | hcontent
      · rw [hnil, List.sublist_nil] at hinner
        simp [hinner]
      · rwa [hcontent]
    have hrows := hr ks₂ hks₂ hcontent
    split
    · -- The empty text has one line, which is no token.
      rename_i hempty
      rw [List.isEmpty_iff.mp hempty] at hrows
      rcases List.sublist_cons_iff.mp hrows with hnil | ⟨ks, rfl, -⟩
      · exact hnil
      · exact absurd rfl (hT.ne_nil (hks₂ [] (by simp)))
    · exact hrows
  have hkept : ks₃.Sublist [b.closing.getD Fence.closing] := by
    cases hc : b.closing with
    | none =>
      rw [hc, Option.toList_none, List.sublist_nil] at hclosing
      simp [hclosing]
    | some l => simpa [hc] using hclosing
  refine sublist_lines_unlines hT hks (by simp [lines_withContent]) ?_
  exact hopening.append (hrepaired.append hkept)

theorem refined_spared [Nonces] (hT : RowTokens T) (ht : TokensAlone T t) (hs : s ∈ split t)
    (h : Refined c asked s s') : Intact T s'.render ∧ KeepsRows T s.render s'.render := by
  have hself := (tokensAlone_render ht hs).intact hT.tokenLike
  cases h with
  | text | accepted | unchanged => exact ⟨hself, .refl T _⟩
  | repaired hrejects hrepair hne =>
    rename_i b r
    obtain ⟨r', hr', hintact, hrows⟩ := exists_repair hT (tokensAlone_content ht hs)
    obtain rfl := Except.ok.inj (hrepair.symm.trans hr')
    have hlines := (intact_unlines hT.tokenLike).mp hself
    exact ⟨intact_withContent hT.tokenLike hlines hintact,
      keepsRows_withContent hT.tokenLike hs hrows⟩

/-- The deep pass over a text with tokens alone on their lines asks about every block and leaves
these lines in place. -/
theorem exists_refineSegments [Nonces] (hT : RowTokens T) (ht : TokensAlone T t) (c : Checker)
    (asked : Asked) : ∃ segments,
      (refineSegments c (split t)).run asked = (segments, asked ++ contents (split t)) ∧
      RefinedAll c asked (split t) segments ∧ Intact T (renderAll segments) ∧
      KeepsRows T t (renderAll segments) := by
  have hrepair : ∀ b, .diagram b ∈ split t → ∃ r, repair b.content = .ok r := by
    intro b hb
    obtain ⟨r, hr, -⟩ := exists_repair hT (tokensAlone_content ht hb)
    exact ⟨r, hr⟩
  obtain ⟨segments, hrun, hrefined⟩ := run_refineSegments c asked (split t) hrepair
  have hspared := hrefined.forall₂ fun _ s s' hs ↦ refined_spared hT ht hs
  refine ⟨segments, hrun, hrefined, ?_, ?_⟩
  · rw [renderAll, intact_unlines hT.tokenLike]
    intro l hl
    obtain ⟨s', hs', rfl⟩ := List.mem_map.mp hl
    obtain ⟨s, -, h⟩ := exists_of_forall₂ hspared hs'
    exact h.1
  · have hrows := keepsRows_unlines (List.forall₂_map_left_iff.mpr
      (List.forall₂_map_right_iff.mpr (hspared.imp fun _ _ h ↦ h.2)))
    rwa [← renderAll, renderAll_split] at hrows

end DiagramRepair
