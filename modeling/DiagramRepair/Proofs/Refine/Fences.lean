import DiagramRepair.Proofs.Refine.Accepted
import DiagramRepair.Proofs.Repair.Fences

namespace DiagramRepair

open Registry Rule Segment

variable {document : Text} {c : Checker} {asked : Asked} {l r t : Text} {b : Block}
  {s s' : Segment} {segments : List Segment} {accepted : Prop}

/-- What the deep pass leaves of a segment: its kind, a text as it is, the fences of a block, and
the whole block if it is accepted. -/
inductive KeptSegment (accepted : Prop) : Segment → Segment → Prop
  | text {t : Text} : KeptSegment accepted (.text t) (.text t)
  | diagram {b b' : Block} (hopening : b'.opening = b.opening) (hclosing : b'.closing = b.closing)
    (haccepted : accepted → b' = b) : KeptSegment accepted (.diagram b) (.diagram b')

/-- The segment with that number is a block that the checker rejects when it is asked about the
blocks in order. -/
def RejectedAt (c : Checker) (asked : Asked) (segments : List Segment) (i : Nat) : Prop :=
  ∃ b, segments[i]? = some (.diagram b) ∧
    (c.parse (asked ++ contents (segments.take i)) b.content).accepts = false

theorem KeptSegment.refl (accepted : Prop) (s : Segment) : KeptSegment accepted s s := by
  cases s with
  | text t => exact .text
  | diagram b => exact .diagram rfl rfl fun _ ↦ rfl

theorem KeptSegment.sameFences (h : KeptSegment accepted s s') : SameFences s s' := by
  cases h with
  | text => exact .text
  | diagram hopening hclosing => exact .diagram hopening hclosing

theorem KeptSegment.mono {accepted' : Prop} (h : KeptSegment accepted s s')
    (himp : accepted' → accepted) : KeptSegment accepted' s s' := by
  cases h with
  | text => exact .text
  | diagram hopening hclosing haccepted =>
    exact .diagram hopening hclosing fun h' ↦ haccepted (himp h')

theorem isMarkedPiece_row [Nonces] {u : Text} (hu : u ∈ (hideTableRows document).2.pieces) :
    IsMarkedPiece u := by
  obtain ⟨hrow, hnewline, -⟩ := of_mem_rows hu
  have hbar : '|' ∈ u := by
    rw [isTableSeparator, Bool.and_eq_true] at hrow
    simpa using hrow.1
  exact ⟨hnewline, '|', hbar, by decide⟩

/-- A row on its line becomes no fence, so no restored line is one that was not one before. -/
theorem bareKept_restore_row [Nonces] (document l : Text) :
    BareKept l ((hideTableRows document).2.restore l) :=
  bareKept_of_edits (fun he ↦ he.leavesMark _)
    (edits_restore (hideTableRows_registry document).1 (fun _ ↦ isMarkedPiece_row) [] l)

/-- No line between the fences of a repaired block is a closing fence. -/
theorem isClosing_restore_repair [Nonces]
    (hb : .diagram b ∈ split (closeBlocks (hideTableRows document).1))
    (hrepair : repair b.content = .ok r)
    (hmarks : ∀ l ∈ (b.restore (hideTableRows document).2).inner,
      Fence.isClosing (dropMarks l) = false) (hl : l ∈ Text.lines r) :
    Fence.isClosing ((hideTableRows document).2.restore l) = false := by
  rw [Bool.eq_false_iff]
  intro hclosing
  have hself := (bareKept_restore_row document l).eq_self (bare_of_isClosing hclosing)
  rw [hself] at hclosing
  obtain ⟨l₀, hl₀, rfl⟩ := exists_of_bare_repair hrepair hl (bare_of_isClosing hclosing)
  have hno : tokenOpen ∉ l₀ := fun hmem ↦
    (bare_of_isClosing hclosing).not_mem (by decide) (tokenOpen_mem_dropMarks hmem)
  rcases lines_content hb with ⟨-, hlines⟩ | hlines
  · rw [hlines, List.mem_singleton] at hl₀
    subst hl₀
    exact absurd hclosing (by decide)
  · have hkept := hmarks _ (List.mem_map_of_mem (hlines ▸ hl₀))
    rw [restore_of_not_mem hno, hclosing] at hkept
    cases hkept

theorem newline_not_mem_restore_repair [Nonces] (hdocument : tokenOpen ∉ document)
    (hb : .diagram b ∈ split (closeBlocks (hideTableRows document).1))
    (hrepair : repair b.content = .ok r) (hl : l ∈ Text.lines r) :
    '\n' ∉ (hideTableRows document).2.restore l := by
  have hT := rowTokens_rows document
  have ht := tokensAlone_closeBlocks hT.tokenLike (tokensAlone_rows hdocument)
  obtain ⟨r', hr', hintact, -⟩ := exists_repair hT (tokensAlone_content ht hb)
  obtain rfl := Except.ok.inj (hrepair.symm.trans hr')
  have hrows := apart_rows document
  have hline := (intact_iff_lines hrows.tokenLike_known).mp (known_of_issued hintact) l hl
  exact newline_not_mem_restore hrows (fun u hu ↦ (of_mem_rows hu).2.1) hline
    (Text.newline_not_mem_of_mem_lines hl)

theorem closing_restore_withContent (hclosed : b.closing.isSome) (u : Text) (reg : Registry) :
    ((b.withContent u).restore reg).closing = (b.restore reg).closing := by
  obtain ⟨fence, hfence⟩ := Option.isSome_iff_exists.mp hclosed
  simp [Block.withContent, Block.restore, hfence]

theorem exists_of_mem_inner_restore {u : Text} {reg : Registry}
    (hl : l ∈ ((b.withContent u).restore reg).inner) : ∃ l₀ ∈ Text.lines u, reg.restore l₀ = l := by
  obtain ⟨l₀, hl₀, rfl⟩ := List.mem_map.mp hl
  exact ⟨l₀, Block.mem_inner_withContent hl₀, rfl⟩

theorem restore_refined [Nonces] (hdocument : tokenOpen ∉ document)
    (hs : s ∈ split (closeBlocks (hideTableRows document).1)) (h : Refined c asked s s')
    (hmarks : ∀ b, s = .diagram b → (c.parse asked b.content).accepts = false →
      ∀ l ∈ (b.restore (hideTableRows document).2).inner, Fence.isClosing (dropMarks l) = false) :
    KeptSegment (∀ b, s = .diagram b → (c.parse asked b.content).accepts)
      (s.restore (hideTableRows document).2) (s'.restore (hideTableRows document).2) ∧
    (s'.restore (hideTableRows document).2).Whole ∧
    ∀ l ∈ (s'.restore (hideTableRows document).2).lines, '\n' ∉ l := by
  have hmem : s.restore (hideTableRows document).2 ∈ split (refineBaseline document) := by
    rw [split_refineBaseline hdocument]
    exact List.mem_map_of_mem hs
  have hlines : ∀ l ∈ (s.restore (hideTableRows document).2).lines, '\n' ∉ l :=
    fun l hl ↦ Text.newline_not_mem_of_mem_lines (mem_lines_of_mem_split hmem hl)
  cases h with
  | text | accepted | unchanged =>
    exact ⟨.refl _ _, whole_of_mem_split hmem, hlines⟩
  | repaired hrejects hrepair hne =>
    rename_i b u
    have hopening : ((b.withContent u).restore (hideTableRows document).2).opening =
        (b.restore (hideTableRows document).2).opening := rfl
    have hclosing := closing_restore_withContent (isClosed_of_mem_split_closeBlocks hs) u
      (hideTableRows document).2
    refine ⟨.diagram hopening hclosing fun haccepts ↦ ?_, ⟨fun l hl ↦ ?_, ?_⟩, fun l hl ↦ ?_⟩
    · rw [haccepts b rfl] at hrejects
      cases hrejects
    · obtain ⟨l₀, hl₀, rfl⟩ := exists_of_mem_inner_restore hl
      exact isClosing_restore_repair hs hrepair (hmarks b rfl hrejects) hl₀
    · rw [hclosing]
      exact (whole_of_mem_split hmem).2
    · have hline : l = (b.restore (hideTableRows document).2).opening ∨
          l ∈ ((b.withContent u).restore (hideTableRows document).2).inner ∨
          l ∈ (b.restore (hideTableRows document).2).closing := by
        simpa [Segment.restore, Segment.lines, Block.lines, hopening, hclosing, or_assoc] using hl
      rcases hline with rfl | hl | hl
      · exact hlines _ (by simp [Segment.restore, Segment.lines, Block.lines])
      · obtain ⟨l₀, hl₀, rfl⟩ := exists_of_mem_inner_restore hl
        exact newline_not_mem_restore_repair hdocument hs hrepair hl₀
      · exact hlines l (by simp [Segment.restore, Segment.lines, Block.lines, Option.mem_def.mp hl])

theorem exists_refined [Nonces] (hdocument : tokenOpen ∉ document) (c : Checker) (asked : Asked) :
    ∃ refined, RefinedAll c asked (split (closeBlocks (hideTableRows document).1)) refined ∧
      ((refine (some c) document true).run asked).1 =
        renderAll (refined.map (Segment.restore (hideTableRows document).2)) := by
  have hT := rowTokens_rows document
  have hrows := apart_rows document
  have ht := tokensAlone_closeBlocks hT.tokenLike (tokensAlone_rows hdocument)
  obtain ⟨refined, hrun, hrefined, hintact, -⟩ := exists_refineSegments hT ht c asked
  have hls := (intact_unlines hrows.tokenLike_known).mp (known_of_issued hintact)
  refine ⟨refined, hrefined, ?_⟩
  calc ((refine (some c) document true).run asked).1
      = (hideTableRows document).2.restore (Text.unlines (refined.map render)) := by
        rw [run_refine, hrun, renderAll]
    _ = Text.unlines ((refined.map render).map (hideTableRows document).2.restore) :=
        restore_unlines hrows hls
    _ = renderAll (refined.map (Segment.restore (hideTableRows document).2)) := by
        rw [renderAll, List.map_map, List.map_map]
        refine congrArg _ (List.map_congr_left fun s hs ↦ ?_)
        exact (render_restore hrows (hls _ (List.mem_map_of_mem hs))).symm

theorem split_renderAll_of_sameFences {segments' : List Segment} (hne : segments ≠ [])
    (hcut : Cut segments) (hlength : segments'.length = segments.length)
    (h : ∀ (i : Nat) s s', segments[i]? = some s → segments'[i]? = some s' →
      SameFences s s' ∧ s'.Whole ∧ ∀ l ∈ s'.lines, '\n' ∉ l) :
    split (renderAll segments') = segments' := by
  have hget : ∀ {i} (hi : i < segments.length) (hi' : i < segments'.length),
      SameFences segments[i] segments'[i] ∧ segments'[i].Whole ∧
        ∀ l ∈ segments'[i].lines, '\n' ∉ l :=
    fun hi hi' ↦ h _ _ _ (List.getElem?_eq_getElem hi) (List.getElem?_eq_getElem hi')
  have hsame : List.Forall₂ SameFences segments segments' :=
    List.forall₂_iff_get.mpr ⟨hlength.symm, fun i hi hi' ↦ (hget hi hi').1⟩
  have hne' : segments' ≠ [] := by
    rintro rfl
    exact hne (List.length_eq_zero_iff.mp hlength.symm)
  refine split_renderAll hne' (hcut.congr hsame) (fun s' hs' ↦ ?_) fun s' hs' ↦ ?_
  all_goals obtain ⟨i, hi, rfl⟩ := List.mem_iff_getElem.mp hs'
  · exact (hget (hlength ▸ hi) hi).2.1
  · exact (hget (hlength ▸ hi) hi).2.2

/-- Unless an inner line of a rejected block is a closing fence once its bracket marks and empty
labels are dropped, the refined document is cut where the baseline is: the plain text, the accepted
blocks and all fences are the same. -/
theorem split_refine [Nonces] (hdocument : tokenOpen ∉ document) (c : Checker) (asked : Asked)
    (hmarks : ∀ i b, RejectedAt c asked (split (closeBlocks (hideTableRows document).1)) i →
      (split (refineBaseline document))[i]? = some (.diagram b) →
      ∀ l ∈ b.inner, Fence.isClosing (dropMarks l) = false) :
    let segments := split (refineBaseline document)
    let refined := split ((refine (some c) document true).run asked).1
    refined.length = segments.length ∧
    ∀ i s s', segments[i]? = some s → refined[i]? = some s' →
      KeptSegment (¬ RejectedAt c asked (split (closeBlocks (hideTableRows document).1)) i)
        s s' := by
  intro segments refined
  obtain ⟨repaired, hrefined, hrun⟩ := exists_refined hdocument c asked
  have hbaseline : segments = _ := split_refineBaseline hdocument
  have hlength : (repaired.map (Segment.restore (hideTableRows document).2)).length =
      segments.length := by
    rw [hbaseline, List.length_map, List.length_map]
    exact (hrefined.forall₂ fun _ _ _ _ _ ↦ trivial).length_eq.symm
  have hkept : ∀ i s s', segments[i]? = some s →
      (repaired.map (Segment.restore (hideTableRows document).2))[i]? = some s' →
      KeptSegment (¬ RejectedAt c asked (split (closeBlocks (hideTableRows document).1)) i) s s' ∧
        s'.Whole ∧ ∀ l ∈ s'.lines, '\n' ∉ l := by
    intro i s s' hs hs'
    rw [hbaseline, List.getElem?_map, Option.map_eq_some_iff] at hs
    rw [List.getElem?_map, Option.map_eq_some_iff] at hs'
    obtain ⟨s, hs, rfl⟩ := hs
    obtain ⟨s', hs', rfl⟩ := hs'
    have hrestored := restore_refined hdocument (List.mem_of_getElem? hs) (hrefined.getElem? hs hs')
      fun b hb hrejects ↦ hmarks i _ ⟨b, hb ▸ hs, hrejects⟩ (by
        rw [split_refineBaseline hdocument, List.getElem?_map, hs, hb]
        rfl)
    refine ⟨hrestored.1.mono fun haccepted b hb ↦ ?_, hrestored.2⟩
    rw [← Bool.not_eq_false]
    exact fun hrejects ↦ haccepted ⟨b, hb ▸ hs, hrejects⟩
  have hsplit : refined = repaired.map (Segment.restore (hideTableRows document).2) := by
    refine (congrArg split hrun).trans ?_
    exact split_renderAll_of_sameFences (split_ne_nil (refineBaseline document)) (cut_split _)
      hlength fun i s s' hs hs' ↦ ⟨(hkept i s s' hs hs').1.sameFences, (hkept i s s' hs hs').2⟩
  rw [hsplit]
  exact ⟨hlength, fun i s s' hs hs' ↦ (hkept i s s' hs hs').1⟩

section

attribute [local instance] Nonces.zeros

theorem split_refine_repaired :
    let document := Text.of "x\n```mermaid\nA <-- B\n```"
    let c : Checker := .ofFunction fun _ ↦ .ok false
    let segments := split (refineBaseline document)
    let refined := split ((refine (some c) document true).run []).1
    tokenOpen ∉ document ∧
    (∀ b ∈ segments.filterMap block?, ∀ l ∈ b.inner, Fence.isClosing (dropMarks l) = false) ∧
    refined.length = segments.length ∧ ∀ i s s', segments[i]? = some s → refined[i]? = some s' →
      KeptSegment (¬ RejectedAt c [] (split (closeBlocks (hideTableRows document).1)) i) s s' := by
  intro document c segments refined
  have hdocument : tokenOpen ∉ document := by decide
  have hmarks : ∀ b ∈ segments.filterMap block?, ∀ l ∈ b.inner,
    Fence.isClosing (dropMarks l) = false := by decide +kernel
  refine ⟨hdocument, hmarks, split_refine hdocument c [] fun i b _ hb ↦ hmarks b ?_⟩
  exact List.mem_filterMap.mpr ⟨.diagram b, List.mem_of_getElem? hb, rfl⟩

end

section

attribute [local instance] Nonces.zeros

/-- Once its empty label is gone, the first line of the rejected block is a closing fence. The rest
of the block is then read as another block. -/
theorem split_refine_ne_empty_label :
    let document := Text.of "```mermaid\n`[\"\"]``\n```[\"\"]mermaid\n```"
    let c : Checker := .ofFunction fun _ ↦ .ok false
    tokenOpen ∉ document ∧ (split (refineBaseline document)).length = 1 ∧
    (split ((refine (some c) document true).run []).1).length = 2 := by
  decide +kernel

end

end DiagramRepair
