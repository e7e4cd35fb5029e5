import DiagramRepair.Proofs.Placeholder.Escapes
import DiagramRepair.Proofs.Rule.Arrow
import DiagramRepair.Proofs.Rule.Cleanup
import DiagramRepair.Proofs.Rule.Comment
import DiagramRepair.Proofs.Rule.EdgeLabel
import DiagramRepair.Proofs.Rule.Node
import DiagramRepair.Proofs.Rule.Note

namespace DiagramRepair

open Pattern Registry Rule

variable {E : (b u r v : Text) → Prop} {b l l' r s t t' t'' u v w : Text} {c : Char}
  {ls ls' done done' : List Text}

/-- The characters that are written without being in the text: printable ASCII, and the ends of
tokens. -/
def isWritten (c : Char) : Bool :=
  (0x20 ≤ c.toNat && c.toNat ≤ 0x7e) || c == tokenOpen || c == tokenClose

def Writes (u v : Text) : Prop := ∀ c, isWritten c = false → c ∉ u → c ∉ v

theorem Writes.refl (u : Text) : Writes u u := fun _ _ hu ↦ hu

theorem Writes.trans (h : Writes u v) (h' : Writes v w) : Writes u w :=
  fun c hc hu ↦ h' c hc (h c hc hu)

theorem Writes.of_subset (h : v ⊆ u) : Writes u v := fun _ _ hu hv ↦ hu (h hv)

theorem writes_of_isWritten (hv : ∀ c ∈ v, isWritten c) (u : Text) : Writes u v :=
  fun _ hc _ ↦ not_mem_of_class hv hc

theorem not_mem_written (hc : isWritten c = false) (hv : ∀ d ∈ v, isWritten d) : c ∉ v :=
  not_mem_of_class hv hc

theorem ne_written {d : Char} (hc : isWritten c = false) (hd : isWritten d) : ¬ c = d :=
  (ne_of_class hd hc).symm

theorem Writes.newline_not_mem (h : Writes u v) (hu : '\n' ∉ u) : '\n' ∉ v :=
  h '\n' (by decide) hu

theorem writes_of_edits (hE : ∀ {b u r v}, E b u r v → Writes u v) (h : Edits E b t t') :
    Writes t t' := by
  intro c hc ht
  induction h with
  | nil => exact ht
  | keep _ ih =>
    rw [List.mem_cons, not_or] at ht ⊢
    exact ⟨ht.1, ih ht.2⟩
  | edit he _ ih =>
    rw [List.mem_append, not_or] at ht ⊢
    exact ⟨hE he c hc ht.1, ih ht.2⟩

theorem writes_of_cases {R : Text → Text → Prop} (hR : ∀ {l l'}, R l l' → Writes l l')
    (h : l' = l ∨ R l l') : Writes l l' := by
  rcases h with rfl | h
  · exact .refl l'
  · exact hR h

theorem not_mem_trim (h : c ∉ t) : c ∉ Text.trim t := fun hmem ↦ h (Text.trim_subset t hmem)

theorem not_mem_trimEnd (h : c ∉ t) : c ∉ Text.trimEnd t :=
  fun hmem ↦ h (Text.trimEnd_subset t hmem)

theorem not_mem_dropQuotes (h : c ∉ t) : c ∉ Text.dropQuotes t :=
  fun hmem ↦ h (List.mem_filter.mp hmem).1

theorem not_mem_unquote (h : c ∉ u) : c ∉ unquote u := by
  have htrim := not_mem_trim h
  rcases unquote_cases u with hu | hu
  · rwa [hu]
  · rw [hu] at htrim
    exact fun hmem ↦ htrim (by simp [hmem])

theorem writes_singleQuotes (t : Text) : Writes t (singleQuotes t) := by
  intro c hc ht hmem
  obtain ⟨d, hd, hcd⟩ := List.mem_map.mp hmem
  split at hcd
  · rw [← hcd] at hc
    cases hc
  · exact ht (hcd ▸ hd)

theorem writes_escapeQuotes (t : Text) : Writes t (escapeQuotes t) := by
  intro c hc ht hmem
  obtain ⟨d, hd, hmem⟩ := List.mem_flatMap.mp hmem
  split at hmem
  · exact not_mem_written hc (by decide) hmem
  · exact ht (List.mem_singleton.mp hmem ▸ hd)

theorem isWritten_of_isDigit (h : c.isDigit) : isWritten c := by
  have hident : isIdentChar c := by simp [isIdentChar, Char.isAlphanum, h]
  rw [isIdentChar_iff] at hident
  simp [isWritten]
  omega

theorem isWritten_of_isTokenChar (h : isTokenChar c) : isWritten c := by
  simp only [isTokenChar, isTokenNameChar, Bool.or_eq_true, Bool.and_eq_true] at h
  rcases h with (⟨hident, -⟩ | hopen) | hclose
  · rw [isIdentChar_iff] at hident
    simp [isWritten]
    omega
  · simp [isWritten, hopen]
  · simp [isWritten, hclose]

/-- Hiding stretches of a text writes tokens. -/
theorem writes_conceal {ps : List Part} {reg : Registry} (hreg : (Part.conceal ps reg).2.Proper) :
    Writes (ps.flatMap Part.text) (Part.conceal ps reg).1 := by
  have hedits : Edits (fun _ _ _ v ↦ (Part.conceal ps reg).2.Issued v) []
      (ps.flatMap Part.text) (Part.conceal ps reg).1 :=
    Part.edits_conceal (fun _ _ _ hv ↦ hv) []
  refine writes_of_edits (fun hv ↦ writes_of_isWritten (fun c hc ↦ ?_) _) hedits
  exact isWritten_of_isTokenChar (isTokenChar_of_mem (tokenLike_issued hreg) hv hc)

theorem writes_hideMatches [Nonces] {p : Pattern} {tag : String} (hp : p.steady) (hs : p.takesSome)
    (htag : ∀ c ∈ tag.toList, isTokenNameChar c) (t : Text) : Writes t (hideMatches p tag t).1 := by
  have htext : (Part.ofPattern p t).flatMap Part.text = t := (scans_pieces hp hs t).flatMap_text
  have hproper : (Part.conceal (Part.ofPattern p t) (fresh tag t)).2.Proper := by
    rw [Part.conceal_registry]
    exact proper_fresh htag t
  have hwrites := writes_conceal hproper
  rwa [htext] at hwrites

/-- What stands for a token is a piece of the registry, or the token itself. -/
theorem not_mem_restore {reg : Registry} (hpieces : ∀ u ∈ reg.pieces, c ∉ u) (ht : c ∉ t) :
    c ∉ reg.restore t := by
  have hrestored := restored_restore reg t
  generalize reg.restore t = t' at hrestored
  induction hrestored with
  | nil => exact ht
  | keep _ _ ih =>
    rw [List.mem_cons, not_or] at ht ⊢
    exact ⟨ht.1, ih ht.2⟩
  | @piece d v t t' _ _ hv _ ih =>
    rw [List.mem_append, not_or] at ht ⊢
    refine ⟨?_, ih ht.2⟩
    rw [hv]
    split
    · cases hpiece : reg.pieces[digitsValue d]? with
      | none => exact ht.1
      | some u => exact hpieces u (Array.mem_of_getElem? hpiece)
    · exact ht.1

theorem writes_stripBracketMarks (l : Text) : Writes l (stripBracketMarks l) := by
  refine .of_subset ((stripBracketMarks_edits l).sublist fun he ↦ ?_).subset
  obtain ⟨-, -⟩ := he
  exact List.nil_sublist _

theorem writes_removeEmptyLabels (l : Text) : Writes l (removeEmptyLabels l) := by
  refine .of_subset ((removeEmptyLabels_edits l).sublist fun he ↦ ?_).subset
  cases he <;> exact List.nil_sublist _

theorem writes_straightenQuotes (l : Text) : Writes l (straightenQuotes l) := by
  intro c hc hl hmem
  obtain ⟨d, hd, hcd⟩ := List.mem_map.mp hmem
  rcases straightQuote_cases d with h | h | h
  · exact hl (h.symm.trans hcd ▸ hd)
  · exact ne_written hc (by decide) (hcd.symm.trans h)
  · exact ne_written hc (by decide) (hcd.symm.trans h)

theorem writes_dropsInnerQuotes (he : DropsInnerQuotes b u r v) : Writes u v := by
  obtain ⟨-⟩ := he
  intro c _ hu
  simp only [List.mem_cons, List.mem_append, not_or] at hu ⊢
  exact ⟨hu.1, hu.2.1, not_mem_dropQuotes hu.2.2.1, hu.2.2.2⟩

theorem writes_stripInnerQuotes (l : Text) : Writes l (stripInnerQuotes l) :=
  writes_of_edits writes_dropsInnerQuotes (stripInnerQuotes_edits l)

theorem writes_fixInvalidArrows (t : Text) : Writes t (fixInvalidArrows t) := by
  refine writes_of_edits (fun he ↦ ?_) (fixInvalidArrows_edits t)
  obtain ⟨-⟩ := he
  exact writes_of_isWritten (by decide) _

theorem writes_turnsEdge (h : TurnsEdge l l') : Writes l l' := by
  obtain ⟨-, -, -, -, -, -, -⟩ := h
  intro c hc hl
  simp only [List.mem_append, not_or] at hl ⊢
  obtain ⟨hindent, hleft, -, -, -, hright, htail, -⟩ := hl
  exact ⟨hindent, hright, not_mem_written hc (by decide), hleft, htail⟩

theorem writes_movesPipe (h : MovesPipe l l') : Writes l l' := by
  obtain ⟨-, -, -, -, -, -, -, -, -, -⟩ := h
  intro c hc hl
  simp only [List.mem_append, List.mem_cons, not_or] at hl ⊢
  obtain ⟨hindent, -, hlabel, -, -, hsource, -, harrow, -, htarget, -⟩ := hl
  exact ⟨hindent, hsource, ne_written hc (by decide), harrow, ne_written hc (by decide), hlabel,
    not_mem_written hc (by decide), htarget⟩

theorem writes_closesLabel (he : ClosesLabel b u r v) : Writes u v := by
  obtain ⟨-⟩ := he
  exact writes_of_isWritten (by decide) _

theorem writes_opensLabel (he : OpensLabel b u r v) : Writes u v := by
  obtain ⟨-⟩ := he
  exact writes_of_isWritten (by decide) _

theorem writes_fixMalformedArrowLabels [Nonces] (l : Text) : Writes l (fixMalformedArrowLabels l) := by
  obtain ⟨hproper, -⟩ := hideBracketRegions_registry l
  have htext : ((Stretch.ofText .square l).map Stretch.toPart).flatMap Part.text = l := by
    rw [List.flatMap_map]
    simpa only [text_toPart] using (cuts_ofText .square l).flatMap_text
  have hhidden : Writes l (hideBracketRegions l).1 := by
    have h : Writes (((Stretch.ofText .square l).map Stretch.toPart).flatMap Part.text)
        (hideBracketRegions l).1 := writes_conceal hproper
    rwa [htext] at h
  have hclosed := writes_of_edits writes_closesLabel
    (closeLabelBeforeArrow_edits (hideBracketRegions l).1)
  have hopened := writes_of_edits writes_opensLabel
    (openLabelAfterDashes_edits (closeLabelBeforeArrow (hideBracketRegions l).1))
  rw [fixMalformedArrowLabels]
  split
  · exact .refl l
  · intro c hc hl
    refine not_mem_restore (fun u hu ↦ ?_) (((hhidden.trans hclosed).trans hopened) c hc hl)
    rcases Part.mem_pieces_conceal hu with hu | hu
    · simp [fresh] at hu
    · obtain ⟨s, r, x, hline, -⟩ := exists_of_hidden_region hu
      rw [hline, List.mem_append, List.mem_append, not_or, not_or] at hl
      exact hl.2.1

theorem writes_relocatesLabel (h : RelocatesLabel l l') : Writes l l' := by
  obtain ⟨-, -, -, -, -, -, -, -⟩ := h
  intro c hc hl
  simp only [List.mem_append, List.mem_cons, not_or] at hl ⊢
  obtain ⟨hhead, harrow, -, htarget, hsemicolon, -, -, hlabel, -⟩ := hl
  exact ⟨not_mem_trimEnd hhead, not_mem_written hc (by decide), hlabel,
    not_mem_written hc (by decide), harrow, ne_written hc (by decide),
    not_mem_trim (List.not_mem_append htarget hsemicolon)⟩

theorem writes_convertsGroup (he : ConvertsGroup b u r v) : Writes u v := by
  intro c hc hu
  cases he with
  | named =>
    simp only [List.mem_append, not_or] at hu ⊢
    obtain ⟨-, -, -, -, -, hname, -⟩ := hu
    exact ⟨not_mem_written hc (by decide), not_mem_trim hname, not_mem_written hc (by decide)⟩
  | bracketed =>
    simp only [List.mem_append, not_or] at hu ⊢
    obtain ⟨-, -, -, -, -, hlabel, -⟩ := hu
    exact ⟨not_mem_written hc (by decide), not_mem_trim hlabel, not_mem_written hc (by decide)⟩

theorem writes_mergesLabels (he : MergesLabels b u r v) : Writes u v := by
  intro c hc hu
  cases he with
  | separated =>
    simp only [List.mem_append, not_or] at hu ⊢
    obtain ⟨-, -, hfirst, -, -, -, hsecond, -, harrow⟩ := hu
    exact ⟨not_mem_written hc (by decide), not_mem_unquote hfirst, not_mem_written hc (by decide),
      not_mem_unquote hsecond, not_mem_written hc (by decide), harrow⟩
  | piped =>
    simp only [List.mem_append, not_or] at hu ⊢
    obtain ⟨-, -, -, hfirst, -, -, -, -, -, -, hsecond, -⟩ := hu
    exact ⟨not_mem_written hc (by decide), hfirst, not_mem_written hc (by decide),
      not_mem_trim hsecond, not_mem_written hc (by decide)⟩

theorem writes_promotesDash (he : PromotesDash b u r v) : Writes u v := by
  obtain ⟨-, -, -, -, -⟩ := he
  intro c hc hu
  rw [List.mem_append, not_or] at hu ⊢
  exact ⟨not_mem_written hc (by decide), hu.2⟩

theorem writes_quotesBarLabel (he : QuotesBarLabel b u r v) : Writes u v := by
  obtain ⟨-, -, -⟩ := he
  intro c hc hu
  simp only [List.mem_append, not_or] at hu ⊢
  obtain ⟨harrow, hs, -, hlabel, -⟩ := hu
  exact ⟨harrow, hs, not_mem_written hc (by decide), hlabel, not_mem_written hc (by decide)⟩

theorem writes_quotesEdgeLabel (he : QuotesEdgeLabel b u r v) : Writes u v := by
  obtain ⟨-, -, -, -, -⟩ := he
  intro c hc hu
  simp only [List.mem_append, not_or] at hu ⊢
  obtain ⟨-, -, hlabel, -, harrow⟩ := hu
  exact ⟨not_mem_written hc (by decide), not_mem_trim hlabel, not_mem_written hc (by decide),
    harrow⟩

/-- Splitting an edge writes a line feed, and nothing else that the rules do not write anyway. -/
theorem writes_splitsEdge (h : SplitsEdge l l') : Writes ('\n' :: l) l' := by
  obtain ⟨-, -, -, -, -, -, -, -, -, -, -⟩ := h
  intro c hc hl
  simp only [List.mem_cons, List.mem_append, not_or] at hl ⊢
  obtain ⟨hnewline, hindent, hsource, -, -, -, hmiddle, -, harrow, -, htarget, -⟩ := hl
  exact ⟨hindent, hsource, not_mem_written hc (by decide), hmiddle, hnewline, hindent, hmiddle,
    ne_written hc (by decide), harrow, ne_written hc (by decide), htarget⟩

theorem writes_splitsTarget (h : SplitsTarget l l') : Writes l l' := by
  obtain ⟨-, -, -, -, -, -⟩ := h
  intro c hc hl
  simp only [List.mem_append, not_or] at hl ⊢
  obtain ⟨hb, hhead, hstart, hremainder, hrest, he, hr⟩ := hl
  exact ⟨hb, hhead, hstart, not_mem_written hc (by decide),
    not_mem_dropQuotes (not_mem_trim (List.not_mem_append hremainder hrest)),
    not_mem_written hc (by decide), he, hr⟩

theorem writes_wrapsLabel (he : WrapsLabel b u r v) : Writes u v := by
  obtain ⟨-, -, -, -⟩ := he
  intro c hc hu
  simp only [List.mem_append, not_or] at hu ⊢
  obtain ⟨hhead, hid, hcontent, hsemicolon⟩ := hu
  exact ⟨hhead, hid, not_mem_written hc (by decide), not_mem_dropQuotes (not_mem_trim hcontent),
    not_mem_written hc (by decide), hsemicolon⟩

theorem writes_opensBracket (he : OpensBracket b u r v) : Writes u v := by
  obtain ⟨-⟩ := he
  exact writes_of_isWritten (by decide) _

theorem writes_closesBracket (he : ClosesBracket b u r v) : Writes u v := by
  obtain ⟨-⟩ := he
  exact writes_of_isWritten (by decide) _

theorem writes_fixExcessiveBrackets (l : Text) : Writes l (fixExcessiveBrackets l) := by
  obtain ⟨t, hopens, hcloses⟩ := fixExcessiveBrackets_edits l
  exact (writes_of_edits writes_opensBracket hopens).trans
    (writes_of_edits writes_closesBracket hcloses)

theorem writes_collapsesLabels (he : CollapsesLabels b u r v) : Writes u v := by
  obtain ⟨-, -, -, -⟩ := he
  intro c _ hu
  simp only [List.mem_append, not_or] at hu ⊢
  exact ⟨hu.1, hu.2.2⟩

theorem writes_quotesLabel (he : QuotesLabel b u r v) : Writes u v := by
  intro c hc hu
  cases he with
  | plain =>
    simp only [List.mem_append, not_or] at hu ⊢
    obtain ⟨hid, -, hcontent, -⟩ := hu
    exact ⟨hid, not_mem_written hc (by decide), not_mem_trim (not_mem_dropQuotes hcontent),
      not_mem_written hc (by decide)⟩
  | terminated =>
    simp only [List.mem_append, not_or] at hu ⊢
    obtain ⟨hid, -, hcontent, hsemicolon, -⟩ := hu
    exact ⟨hid, not_mem_written hc (by decide), not_mem_trim (not_mem_dropQuotes hcontent),
      not_mem_written hc (by decide), hsemicolon⟩

theorem writes_labelsEdge {comment : Text} (he : LabelsEdge comment b u r v) :
    Writes (comment ++ u) v := by
  intro c hc hu
  rw [List.mem_append, not_or] at hu
  obtain ⟨hcomment, hu⟩ := hu
  cases he with
  | quoted =>
    simp only [List.mem_append, List.mem_cons, not_or] at hu ⊢
    obtain ⟨-, -, -, hlabel, -⟩ := hu
    exact ⟨not_mem_written hc (by decide), not_mem_trim hlabel, ne_written hc (by decide), hcomment,
      not_mem_written hc (by decide)⟩
  | unquoted =>
    simp only [List.mem_append, List.mem_cons, not_or] at hu ⊢
    obtain ⟨-, -, hlabel, -⟩ := hu
    exact ⟨not_mem_written hc (by decide), not_mem_trim hlabel, ne_written hc (by decide), hcomment,
      not_mem_written hc (by decide)⟩
  | bare =>
    simp only [List.mem_append, not_or]
    exact ⟨not_mem_written hc (by decide), hcomment, not_mem_written hc (by decide)⟩

theorem writes_mergesComment (h : MergesComment l l') : Writes l l' := by
  obtain ⟨hbody, -, -, -, -, -, -, hedit⟩ := h
  rename_i b u r v body s marks s' comment s'' e
  intro c hc hl
  simp only [List.mem_append, List.mem_cons, not_or] at hl
  obtain ⟨hbody', hsemicolon, -, -, -, hcomment, -⟩ := hl
  have hstatement : c ∉ b.reverse ++ (u ++ r) := by
    rw [hbody]
    simp [hbody', hsemicolon]
  simp only [List.mem_append, not_or] at hstatement ⊢
  obtain ⟨hb, hu, hr⟩ := hstatement
  have hquotes := writes_singleQuotes comment c hc hcomment
  exact ⟨hb, writes_labelsEdge hedit c hc (List.not_mem_append hquotes hu), hr⟩

theorem writes_labelsPlainEdge {text edge edge' : Text} (h : LabelsPlainEdge text edge edge') :
    Writes (text ++ edge) edge' := by
  obtain ⟨-, -, -, -, -, -, -, -, -⟩ := h
  intro c hc hl
  simp only [List.mem_append, List.mem_cons, not_or] at hl ⊢
  obtain ⟨htext, hindent, hsource, hlabel, -, harrow, -, htarget, hrest, -⟩ := hl
  exact ⟨hindent, hsource, hlabel, not_mem_written hc (by decide), htext,
    not_mem_written hc (by decide), harrow, ne_written hc (by decide), htarget, hrest⟩

theorem Rule.IsNote.writes {indent node text : Text} (h : IsNote l indent node text) :
    Writes l indent ∧ Writes l node ∧ Writes l text := by
  cases h with
  | side =>
    refine ⟨fun c _ hl ↦ ?_, fun c _ hl ↦ ?_, fun c hc hl ↦ ?_⟩ <;>
      simp only [List.mem_append, not_or] at hl
    · exact hl.1
    · obtain ⟨-, -, -, -, -, -, -, hnode, -⟩ := hl
      exact hnode
    · obtain ⟨-, -, -, -, -, -, -, -, -, -, -, htext, -⟩ := hl
      exact writes_escapeQuotes _ c hc htext
  | quoted =>
    refine ⟨fun c _ hl ↦ ?_, fun c _ hl ↦ ?_, fun c _ hl ↦ ?_⟩ <;>
      simp only [List.mem_append, not_or] at hl
    · exact hl.1
    · obtain ⟨-, -, -, -, hnode, -⟩ := hl
      exact hnode
    · obtain ⟨-, -, -, -, -, -, -, -, -, htext, -⟩ := hl
      exact htext

theorem IsNoteName.writes {node name : Text} (h : IsNoteName node name) : Writes node name := by
  intro c hc hnode
  rcases h with rfl | ⟨n, rfl⟩
  · exact List.not_mem_append (not_mem_written hc (by decide)) hnode
  · have hdigits : c ∉ Text.ofNat n :=
      not_mem_written hc fun _ hd ↦ isWritten_of_isDigit (isDigit_of_mem_ofNat hd)
    simp only [List.mem_append, List.mem_cons, not_or]
    exact ⟨not_mem_written hc (by decide), hnode, ne_written hc (by decide), hdigits⟩

/-- What a note leaves is made of the note and of the lines that were there. -/
theorem Rule.ConvertsNote.not_mem (h : ConvertsNote done l done') (hc : isWritten c = false)
    (hdone : ∀ x ∈ done, c ∉ x) (hl : c ∉ l) : ∀ x ∈ done', c ∉ x := by
  cases h with
  | keep => exact List.forall_mem_cons.mpr ⟨hl, hdone⟩
  | @attach _ _ _ edge edge' after before hnote hedges hedge =>
    subst hedges
    rw [List.forall_mem_append, List.forall_mem_cons] at hdone ⊢
    have htext := hnote.writes.2.2 c hc hl
    exact ⟨hdone.1, writes_labelsPlainEdge hedge c hc (List.not_mem_append htext hdone.2.1),
      hdone.2.2⟩
  | @node indent node text name hnote hname =>
    obtain ⟨hindent, hnode, htext⟩ := hnote.writes
    have hname := hname.writes c hc (hnode c hc hl)
    simp only [noteNode, List.cons_append, List.nil_append, List.forall_mem_cons,
      List.mem_append, not_or]
    exact ⟨⟨⟨⟨hindent c hc hl, hnode c hc hl⟩, not_mem_written hc (by decide)⟩, hname⟩,
      ⟨⟨⟨⟨hindent c hc hl, hname⟩, not_mem_written hc (by decide)⟩, htext c hc hl⟩,
        not_mem_written hc (by decide)⟩, hdone⟩

theorem not_mem_convertNoteLines (ids : List Text) (names : NoteNames) (hc : isWritten c = false)
    (hdone : ∀ x ∈ done, c ∉ x) (hls : ∀ x ∈ ls, c ∉ x) :
    ∀ x ∈ (convertNoteLines ids done names ls).1, c ∉ x := by
  induction ls generalizing done names with
  | nil => simpa [convertNoteLines] using hdone
  | cons l ls ih =>
    rw [List.forall_mem_cons] at hls
    rw [convertNoteLines]
    exact ih _ ((convertsNote ids done names l).not_mem hc hdone hls.1) hls.2

/-- The lines that the notes of a block leave are the lines of the result. -/
theorem lines_convertNoteDirectives (ids : List Text) (names : NoteNames) (t : Text) :
    Text.lines (convertNoteDirectives ids names t).1 =
      (convertNoteLines ids [] names (Text.lines t)).1 :=
  Text.lines_unlines (convertNoteLines_ne_nil ids names (.inr (Text.lines_ne_nil t)))
    (not_mem_convertNoteLines ids names (by decide) (by simp)
      fun _ hx ↦ Text.newline_not_mem_of_mem_lines hx)

end DiagramRepair
