import DiagramRepair.Proofs.MathDelimiter.Pairs
import DiagramRepair.Proofs.Refine.Accepted
import DiagramRepair.Proofs.Repair.Written

namespace DiagramRepair

open Pattern Registry Segment

variable {document t l r : Text} {b : Block} {s s' : Segment} {segments segments' : List Segment}
  {c : Char} {asked : Asked}

namespace MathDelimiter

theorem writes_toDollars (t : Text) : Writes t (toDollars t) := by
  intro c hc ht
  fun_induction toDollars t with
  | case1 t ih =>
    simp only [List.mem_cons, not_or] at ht ⊢
    exact ⟨ne_written hc (by decide), ih ht.2.2⟩
  | case2 t ih =>
    simp only [List.mem_cons, not_or] at ht ⊢
    exact ⟨ne_written hc (by decide), ih ht.2.2⟩
  | case3 d t _ _ ih =>
    simp only [List.mem_cons, not_or] at ht ⊢
    exact ⟨ht.1, ih ht.2⟩
  | case4 => exact ht

theorem writes_trimInline {m : Match} (hm : m.Of inlinePattern) :
    Writes m.whole (trimInline m) := by
  obtain ⟨x, -, hwhole, htrim⟩ := trimInline_eq hm
  intro c hc hm
  rw [hwhole] at hm
  rw [htrim]
  simp only [List.mem_append, List.mem_cons, List.not_mem_nil, or_false, not_or] at hm ⊢
  exact ⟨ne_written hc (by decide), not_mem_trim hm.2.1, ne_written hc (by decide)⟩

theorem writes_cleanup [Nonces] (t : Text) : Writes t (cleanup t) := by
  have hhidden : Writes t (hideMatches (sign "\\$") "DOLLAR" t).1 :=
    writes_hideMatches (by decide) (by decide) (by decide) t
  have htrimmed := writes_of_edits (E := fun _ u _ v ↦ Writes u v) id
    (edits_replaceAll (f := trimInline) (by decide) (by decide)
      (fun m hm ↦ .inr (writes_trimInline hm)) (toDollars (hideMatches (sign "\\$") "DOLLAR" t).1))
  intro c hc ht
  refine not_mem_restore (fun u hu ↦ ?_)
    (((hhidden.trans (writes_toDollars _)).trans htrimmed) c hc ht)
  obtain ⟨-, -, rfl⟩ := Array.mem_map.mp hu
  exact not_mem_written hc (by decide)

end MathDelimiter

theorem writes_normalize (l : Text) : Writes l (Line.normalize l) := by
  have hadded : ∀ c ∈ " ->\"[]|;".toList, isWritten c := by decide
  intro c hc hl hmem
  rcases (Line.normalizes_normalize l).adds c hmem with h | h
  · exact hl h
  · simp [hadded c (among_eq_true.mp h)] at hc

theorem writesLines_closeBlocks (t : Text) : WritesLines t (closeBlocks t) := by
  intro c hc ht
  obtain ⟨hnewline, ht⟩ := not_or.mp (mt List.mem_cons.mpr ht)
  refine Text.not_mem_unlines hnewline (forall_mem_closeLines (not_mem_written hc (by decide))
    (fun l hl _ hmem ↦ ?_) (fun l hl ↦ writes_normalize l c hc hl) none (by simp)
    fun l hl hmem ↦ ht (Text.mem_of_mem_lines hmem hl))
  rcases Fence.mem_normalizeOpening hmem with h | h
  · exact hl h
  · exact not_mem_written hc (by decide) h

theorem writesLines_hideTableRows [Nonces] (document : Text) :
    WritesLines document (hideTableRows document).1 := by
  obtain ⟨hproper, -⟩ := hideTableRows_registry document
  have hlines : List.Forall₂ WritesLines (Text.lines document)
      (Text.lines (hideTableRows document).1) := by
    refine (hideTableRows_lines document).imp fun l l' hstands ↦ ?_
    rw [Part.StandsFor] at hstands
    split at hstands
    · obtain ⟨n, -, rfl⟩ := hstands
      refine (writes_of_isWritten (fun c hc ↦ ?_) l).lines
      exact isWritten_of_isTokenChar (isTokenChar_of_mem (tokenLike_token hproper) ⟨n, rfl⟩ hc)
    · rw [hstands]
      exact .refl l
  have hwrites := writesLines_unlines hlines
  rwa [Text.unlines_lines] at hwrites

theorem not_mem_restore_rows [Nonces] (hc : c ∉ document) (ht : c ∉ t) :
    c ∉ (hideTableRows document).2.restore t :=
  not_mem_restore (fun _ hu hmem ↦ hc (Text.mem_of_mem_lines hmem (of_mem_hideLines hu).1)) ht

theorem Segment.Refined.not_mem [Nonces] {checker : Checker} (h : Refined checker asked s s')
    (hc : isWritten c = false) (hnewline : c ≠ '\n') (hs : ∀ l ∈ s.lines, c ∉ l) :
    ∀ l ∈ s'.lines, c ∉ l := by
  cases h with
  | text | accepted | unchanged => exact hs
  | @repaired b r _ hrepair =>
    have hb : ∀ l ∈ b.lines, c ∉ l := hs
    have hcontent : c ∉ b.content :=
      Text.not_mem_unlines hnewline fun l hl ↦ hb l (by simp [Block.lines, hl])
    have hr : c ∉ r := (writesLines_repair hrepair).not_mem hc hnewline hcontent
    exact Block.forall_mem_withContent hb (fun l hl hmem ↦ hr (Text.mem_of_mem_lines hmem hl))
      (not_mem_written hc (by decide))

theorem Segment.RefinedAll.not_mem [Nonces] {checker : Checker}
    (h : RefinedAll checker asked segments segments') (hc : isWritten c = false)
    (hnewline : c ≠ '\n') (hsegments : ∀ s ∈ segments, ∀ l ∈ s.lines, c ∉ l) :
    c ∉ renderAll segments' := by
  rw [renderAll_eq]
  refine Text.not_mem_unlines hnewline fun l hl ↦ ?_
  obtain ⟨s', hs', hl⟩ := List.mem_flatMap.mp hl
  have hrefined := h.forall₂ (Q := fun s s' ↦ ∀ l ∈ s'.lines, c ∉ l)
    fun _ s _ hs hrefined ↦ hrefined.not_mem hc hnewline (hsegments s hs)
  obtain ⟨-, -, hlines⟩ := exists_of_forall₂ hrefined hs'
  exact hlines l hl

/-- A refined document holds no character that the document does not hold, but for printable ASCII
and what tokens and lines end with. -/
theorem writesLines_refine [Nonces] (checker? : Option Checker) (document : Text) (deep : Bool)
    (asked : Asked) : WritesLines document ((refine checker? document deep).run asked).1 := by
  have hclosed := (writesLines_hideTableRows document).trans (writesLines_closeBlocks _)
  intro c hc hdocument
  obtain ⟨hnewline, hdocument⟩ := not_or.mp (mt List.mem_cons.mpr hdocument)
  have hshown : c ∉ closeBlocks (hideTableRows document).1 := hclosed.not_mem hc hnewline hdocument
  have hbaseline := not_mem_restore_rows hdocument hshown
  cases checker? with
  | none => exact hbaseline
  | some checker =>
    cases deep with
    | false => exact hbaseline
    | true =>
      obtain ⟨segments, hrun, hrefined⟩ := run_refineSegments checker asked
        (split (closeBlocks (hideTableRows document).1)) fun b _ ↦ (repair_total b.content).1
      rw [run_refine, hrun]
      refine not_mem_restore_rows hdocument (hrefined.not_mem hc hnewline fun s hs l hl hmem ↦ ?_)
      exact hshown (Text.mem_of_mem_lines hmem (mem_lines_of_mem_split hs hl))

end DiagramRepair
