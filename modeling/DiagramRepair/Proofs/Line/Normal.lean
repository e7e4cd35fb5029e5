import DiagramRepair.Line.Normal
import DiagramRepair.Proofs.Block.Fence
import DiagramRepair.Proofs.Bracket
import DiagramRepair.Proofs.Rule.EdgeLabel

namespace DiagramRepair

open Pattern

variable {l l' t t' p u v : Text} {c c' : Char}

def isAdded (c : Char) : Bool := among " ->\"[]|;" c

def Adds (t t' : Text) : Prop := ∀ c ∈ t', c ∈ t ∨ isAdded c

def AgreeToMark (l l' : Text) : Prop := ∃ p s s' c c' r r', l = p ++ (s ++ c :: r) ∧
  l' = p ++ (s' ++ c' :: r') ∧ Blank s ∧ Blank s' ∧ isMark c ∧ isMark c'

structure MarkEdit (l l' : Text) : Prop where
  agree : l' = l ∨ AgreeToMark l l'
  adds : Adds l l'

structure Normalizes (l l' : Text) : Prop where
  sameLead : SameLead l l'
  adds : Adds l l'
  fixed : (∀ c ∈ l, isMark c = false) → l' = l

theorem Adds.of_subset (h : t' ⊆ t) : Adds t t' := fun _ hc ↦ .inl (h hc)

theorem adds_of_isAdded (h : ∀ c ∈ t', isAdded c) : Adds t t' := fun c hc ↦ .inr (h c hc)

theorem Adds.trans {t'' : Text} (h : Adds t t') (h' : Adds t' t'') : Adds t t'' := by
  intro c hc
  rcases h' c hc with hc | hc
  · exact h c hc
  · exact .inr hc

theorem Adds.append {s s' : Text} (hs : Adds t s) (hs' : Adds t s') : Adds t (s ++ s') := by
  intro c hc
  rcases List.mem_append.mp hc with hc | hc
  · exact hs c hc
  · exact hs' c hc

theorem Adds.mono {s : Text} (h : Adds t t') (hs : t ⊆ s) : Adds s t' :=
  fun c hc ↦ (h c hc).imp_left fun h ↦ hs h

theorem Adds.cons (hc : c ∈ t ∨ isAdded c) (h : Adds t t') : Adds t (c :: t') := by
  intro d hd
  rcases List.mem_cons.mp hd with rfl | hd
  · exact hc
  · exact h d hd

theorem lead_append_mark {s r : Text} (hs : Blank s) (hc : isMark c) :
    lead (p ++ (s ++ c :: r)) = lead p := by
  have hstop : (s ++ c :: r).takeWhile (fun c ↦ !isMark c) = s := by
    rw [takeWhile_append fun c hc ↦ not_isMark_of_isBlank (hs c hc)]
    simp [hc]
  rw [lead, lead, List.takeWhile_append, hstop]
  split
  · rename_i h
    rw [Text.trimEnd_append_blank hs, (List.takeWhile_sublist _).eq_of_length h]
  · rfl

theorem AgreeToMark.sameLead (h : AgreeToMark l l') : SameLead l l' := by
  obtain ⟨p, s, s', c, c', r, r', rfl, rfl, hs, hs', hc, hc'⟩ := h
  refine ⟨by rw [lead_append_mark hs hc, lead_append_mark hs' hc'], iff_of_false ?_ ?_⟩
  · exact fun h ↦ by simp [h c (by simp)] at hc
  · exact fun h ↦ by simp [h c' (by simp)] at hc'

theorem AgreeToMark.append (p r r' : Text) (h : AgreeToMark l l') :
    AgreeToMark (p ++ (l ++ r)) (p ++ (l' ++ r')) := by
  obtain ⟨q, s, s', c, c', x, x', rfl, rfl, hs⟩ := h
  exact ⟨p ++ q, s, s', c, c', x ++ r, x' ++ r', by simp, by simp, hs⟩

theorem MarkEdit.normalizes (h : MarkEdit l l') : Normalizes l l' := by
  rcases h.agree with rfl | hagree
  · exact ⟨⟨rfl, .rfl⟩, h.adds, fun _ ↦ rfl⟩
  · refine ⟨hagree.sameLead, h.adds, fun hl ↦ ?_⟩
    obtain ⟨p, s, s', c, c', r, r', rfl, -, -, -, hc, -⟩ := hagree
    simp [hl c (by simp)] at hc

theorem Normalizes.refl (l : Text) : Normalizes l l :=
  ⟨⟨rfl, .rfl⟩, .of_subset (List.Subset.refl l), fun _ ↦ rfl⟩

theorem Normalizes.trans {l'' : Text} (h : Normalizes l l') (h' : Normalizes l' l'') :
    Normalizes l l'' where
  sameLead := h.sameLead.trans h'.sameLead
  adds := h.adds.trans h'.adds
  fixed hl := by rw [h'.fixed (h.fixed hl ▸ hl), h.fixed hl]

theorem MarkEdit.refl (l : Text) : MarkEdit l l := ⟨.inl rfl, .of_subset (List.Subset.refl l)⟩

theorem MarkEdit.append_left (p : Text) (h : MarkEdit l l') : MarkEdit (p ++ l) (p ++ l') where
  agree := by
    rcases h.agree with rfl | hagree
    · exact .inl rfl
    · exact .inr (by simpa using hagree.append p [] [])
  adds := (Adds.of_subset (List.subset_append_left p l)).append
    (h.adds.mono (List.subset_append_right p l))

theorem MarkEdit.cons (c : Char) (h : MarkEdit l l') : MarkEdit (c :: l) (c :: l') :=
  h.append_left [c]

theorem markEdit_of_mark (hc : isMark c) (hc' : isMark c') (h : Adds (c :: t) (c' :: t')) :
    MarkEdit (c :: t) (c' :: t') :=
  ⟨.inr ⟨[], [], [], c, c', t, t', rfl, rfl, List.forall_mem_nil _, List.forall_mem_nil _, hc, hc'⟩,
    h⟩

theorem MarkEdit.append (hu : MarkEdit u v) (h : MarkEdit l l') : MarkEdit (u ++ l) (v ++ l') := by
  rcases hu.agree with rfl | hagree
  · exact h.append_left _
  · exact ⟨.inr (hagree.append [] l l'), (hu.adds.mono (List.subset_append_left u l)).append
      (h.adds.mono (List.subset_append_right u l))⟩

theorem markEdit_of_edits {E : (b u r v : Text) → Prop}
    (hE : ∀ {b u r v}, E b u r v → MarkEdit u v) {b : Text} (h : Edits E b l l') :
    MarkEdit l l' := by
  induction h with
  | nil => exact .refl _
  | keep _ ih => exact ih.cons _
  | edit he _ ih => exact (hE he).append ih

namespace Line

theorem exists_of_hashComment {m : Match} (hm : hashCommentPattern.match? l = some m) :
    ∃ s s₁ s₂, l = m.group "indent" ++ (m.group "source" ++ (s ++ '-' :: (Text.of "->" ++ (s₂ ++
        (m.group "target" ++ (Text.of ";" ++ (s₁ ++ (Text.of "#" ++
          (m.group "comment" ++ m.after))))))))) ∧
      Blank (m.group "indent") ∧ (∀ c ∈ m.group "source", isWordChar c) ∧ Blank s := by
  obtain ⟨⟨gs, h, hgs⟩, -, hline⟩ := of_match? (by decide) hm
  simp only [hashCommentPattern, many, takes_append_lastLineEnd, takes_append_group,
    takes_star_any, takes_append_blanks, takes_append_sign, takes_many1_one, takes_blanks,
    takes_textStart, existsAndEq, true_and, and_true, and_assoc, List.append_assoc,
    List.nil_append] at h
  obtain ⟨-, comment, s₁, target, s₂, s, indent, source, hu, rfl, -, -, -, -, -, hs, -, hsource,
    hindent, -⟩ := h
  have hgroup : m.group "indent" = indent ∧ m.group "source" = source ∧
      m.group "comment" = comment ∧ m.group "target" = target := by
    simp only [Match.group, hgs]
    exact ⟨rfl, rfl, rfl, rfl⟩
  rw [hgroup.1, hgroup.2.1, hgroup.2.2.1, hgroup.2.2.2]
  exact ⟨s, s₁, s₂, by simp [hline, hu, Text.of], hindent, hsource, hs⟩

theorem markEdit_mergeHashComment (l : Text) : MarkEdit l (mergeHashComment l) := by
  rw [mergeHashComment]
  split
  · exact .refl l
  · rename_i m hm
    obtain ⟨s, s₁, s₂, hl, -, -, hs⟩ := exists_of_hashComment hm
    generalize m.group "indent" = indent, m.group "source" = source,
      m.group "comment" = comment, m.group "target" = target at hl ⊢
    have hsub : indent ⊆ l ∧ source ⊆ l ∧ Text.trim comment ⊆ l ∧ target ⊆ l := by
      have htrim := Text.trim_subset comment
      rw [hl]
      refine ⟨?_, ?_, ?_, ?_⟩ <;> intro c hc <;> simp [hc]
      simp [htrim hc]
    refine ⟨.inr ⟨indent ++ source, s, [' '], '-', '-', _, Text.of "- \"" ++ (Text.trim comment ++
      (Text.of "\" --> " ++ (target ++ [';']))), by simpa using hl, by simp [Text.of], hs,
      by decide, by decide, by decide⟩, ?_⟩
    have hsign : ∀ {s : String}, (∀ c ∈ s.toList, isAdded c) → Adds l (Text.of s) :=
      fun h ↦ adds_of_isAdded h
    have hhead := ((Adds.of_subset hsub.1).append (.of_subset hsub.2.1)).append
      (hsign (s := " -- \"") (by decide))
    exact (((hhead.append (.of_subset hsub.2.2.1)).append (hsign (by decide))).append
      (.of_subset hsub.2.2.2)).append (adds_of_isAdded (by decide))

theorem markEdit_bracketQuotedFrom (state : QuoteState) (prev : Option Char) (t : Text) :
    MarkEdit t (bracketQuotedFrom state prev t) := by
  induction t generalizing state prev with
  | nil =>
    rw [bracketQuotedFrom]
    exact .refl []
  | cons c t ih =>
    cases state with
    | plain depth =>
      rw [bracketQuotedFrom]
      split
      · rename_i hc
        subst hc
        split
        · refine markEdit_of_mark (by decide) (by decide) (.cons (.inr (by decide)) ?_)
          exact ((ih _ _).cons _).adds
        · exact (ih _ _).cons _
      · split
        · exact (ih _ _).cons _
        · split
          · exact (ih _ _).cons _
          · exact (ih _ _).cons _
    | quoted depth =>
      rw [bracketQuotedFrom]
      exact (ih _ _).cons _
    | wrapping =>
      rw [bracketQuotedFrom]
      split
      · rename_i hc
        subst hc
        refine markEdit_of_mark (by decide) (by decide) (.cons (.inr (by decide)) ?_)
        exact .cons (.inr (by decide)) ((ih _ _).adds.mono (List.subset_cons_self _ _))
      · exact (ih _ _).cons _

theorem markEdit_bracketQuotedLabels (l : Text) : MarkEdit l (bracketQuotedLabels l) :=
  markEdit_bracketQuotedFrom _ _ l

theorem markEdit_closeBeforeTerminator (l : Text) : MarkEdit l (closeBeforeTerminator l) := by
  fun_induction closeBeforeTerminator l with
  | case1 t ih =>
    refine markEdit_of_mark (by decide) (by decide) ?_
    have hrest : Adds ('[' :: '"' :: ';' :: t) (closeBeforeTerminator t) :=
      ih.adds.mono fun c hc ↦ by simp [hc]
    exact .cons (.inr (by decide)) (.cons (.inr (by decide)) (.cons (.inr (by decide)) hrest))
  | case2 c t _ ih => exact ih.cons c
  | case3 => exact .refl []

theorem markEdit_closeAtEnd (l : Text) : MarkEdit l (closeAtEnd l) := by
  rw [closeAtEnd]
  split
  · rename_i h
    obtain ⟨p, rfl⟩ := List.isSuffixOf_iff_suffix.mp h
    have hdrop : (p ++ ['[', '"']).dropLast.dropLast = p := by simp
    rw [hdrop]
    exact (markEdit_of_mark (by decide) (by decide) (adds_of_isAdded (by decide))).append_left p
  · exact .refl l

theorem normalizes_cleanLabelTail (l : Text) : Normalizes l (cleanLabelTail l) :=
  (markEdit_closeBeforeTerminator l).normalizes.trans (markEdit_closeAtEnd _).normalizes

theorem normalizes_settleLabels (passes : Nat) (l : Text) :
    Normalizes l (settleLabels passes l) := by
  induction passes generalizing l with
  | zero => exact .refl l
  | succ passes ih =>
    have hnext := (markEdit_bracketQuotedLabels l).normalizes.trans (normalizes_cleanLabelTail _)
    rw [settleLabels]
    split
    · exact hnext
    · exact hnext.trans (ih _)

inductive FixesBrokenLabel : (b u r v : Text) → Prop
  | mk {b s label s' r : Text} (hs : Blank s) (hs' : Blank s') : FixesBrokenLabel b
      (Text.of "--" ++ (s ++ (Text.of "[\"" ++ (label ++ (Text.of "[\"" ++
        (s' ++ Text.of "-->"))))))
      r
      (Text.of "-- \"" ++ (label ++ Text.of "\" -->"))

theorem fixBrokenEdgeLabels_edits (l : Text) :
    Edits FixesBrokenLabel [] l (fixBrokenEdgeLabels l) := by
  refine edits_replaceAll (by decide) (by decide) (fun m hm ↦ .inr ?_) l
  obtain ⟨gs, h, hgs⟩ := hm
  simp only [brokenEdgeLabelPattern, takes_append_sign, takes_append_blanks, takes_append_group,
    takes_many1Lazy_any, takes_sign, existsAndEq, true_and, and_true, and_assoc, List.append_assoc,
    List.nil_append] at h
  obtain ⟨s', label, s, hu, hs', rfl, -, -, hs⟩ := h
  rw [hu]
  simp only [Match.group, hgs, List.append_assoc]
  exact .mk hs hs'

theorem markEdit_fixBrokenEdgeLabels (l : Text) : MarkEdit l (fixBrokenEdgeLabels l) := by
  refine markEdit_of_edits (fun he ↦ ?_) (fixBrokenEdgeLabels_edits l)
  obtain ⟨-, -⟩ := he
  rename_i s label s'
  refine markEdit_of_mark (by decide) (by decide) ?_
  have hlabel : label ⊆ Text.of "--" ++ (s ++ (Text.of "[\"" ++ (label ++
      (Text.of "[\"" ++ (s' ++ Text.of "-->"))))) := fun c hc ↦ by simp [hc]
  exact (adds_of_isAdded (by decide : ∀ c ∈ Text.of "-- \"", isAdded c)).append
    ((Adds.of_subset hlabel).append (adds_of_isAdded (by decide)))

inductive QuotesNestedLabel : (b u r v : Text) → Prop
  | mk {b id s content r : Text} (hs : Blank s) :
    QuotesNestedLabel b (id ++ (s ++ (Text.of "[" ++ (content ++ Text.of "]")))) r
      (id ++ (Text.of "[\"" ++ (Text.dropQuotes content ++ Text.of "\"]")))

theorem quoteNestedBracketLabels_edits (l : Text) :
    Edits QuotesNestedLabel [] l (quoteNestedBracketLabels l) := by
  refine edits_replaceAll (by decide) (by decide) (fun m hm ↦ ?_) l
  obtain ⟨gs, h, hgs⟩ := hm
  simp only [nestedLabelPattern, takes_append_sign, takes_append_group, takes_append_notAhead,
    takes_append_blanks, takes_group, takes_many1_one, existsAndEq, true_and, and_true,
    List.append_assoc] at h
  obtain ⟨content, g, id, s, hu, rfl, hcontent, -, hs, -⟩ := h
  obtain rfl := hcontent.groups_eq_nil (by decide)
  simp only
  split
  · exact .inl rfl
  · rw [hu]
    simp only [Match.group, hgs, List.append_assoc]
    exact .inr (.mk hs)

theorem markEdit_quoteNestedBracketLabels (l : Text) : MarkEdit l (quoteNestedBracketLabels l) := by
  refine markEdit_of_edits (fun he ↦ ?_) (quoteNestedBracketLabels_edits l)
  obtain ⟨hs⟩ := he
  rename_i id s content
  have hcontent :
      Text.dropQuotes content ⊆ id ++ (s ++ (Text.of "[" ++ (content ++ Text.of "]"))) := by
    intro c hc
    simp [(List.mem_filter.mp hc).1]
  refine ⟨.inr ⟨id, s, [], '[', '[', _, _, rfl, rfl, hs, List.forall_mem_nil _, by decide,
    by decide⟩, ?_⟩
  exact (Adds.of_subset (List.subset_append_left _ _)).append
    ((adds_of_isAdded (by decide : ∀ c ∈ Text.of "[\"", isAdded c)).append
      ((Adds.of_subset hcontent).append (adds_of_isAdded (by decide))))

theorem markEdit_quotePipeLabels (l : Text) : MarkEdit l (quotePipeLabels l) := by
  refine markEdit_of_edits (fun he ↦ ?_) (Rule.quotePipeLabels_edits l)
  obtain ⟨-, -, -⟩ := he
  rename_i arrow s label
  refine (markEdit_of_mark (by decide) (by decide) ?_).append_left s |>.append_left arrow
  have hlabel : label ⊆ Text.of "|" ++ (label ++ Text.of "|") := fun c hc ↦ by simp [hc]
  exact (adds_of_isAdded (by decide : ∀ c ∈ Text.of "|\"", isAdded c)).append
    ((Adds.of_subset hlabel).append (adds_of_isAdded (by decide)))

theorem markEdit_stripRegion (x : Text) :
    MarkEdit ('[' :: (x ++ [']'])) (stripRegion ('[' :: (x ++ [']']))) := by
  rw [stripRegion]
  split
  · exact .refl _
  · refine markEdit_of_mark (by decide) (by decide) (.cons (.inr (by decide)) ?_)
    refine Adds.append (.of_subset fun c hc ↦ ?_) (adds_of_isAdded (by decide))
    have hmem : c ∈ x := by simpa using (List.mem_filter.mp hc).1
    simp [hmem]

theorem markEdit_stripStretches {ss : List Stretch} (h : Cuts .square l ss) (prev : Option Char) :
    MarkEdit l (stripStretches prev ss) := by
  induction h generalizing prev with
  | nil => exact .refl []
  | outside _ _ ih => exact (ih _).cons _
  | @region o c x r ss _ ho hc _ ih =>
    obtain rfl := Brackets.square_opens.mp ho
    obtain rfl := Brackets.square_closes.mp hc
    have hsplit : '[' :: (x ++ ']' :: r) = '[' :: (x ++ [']']) ++ r := by simp
    rw [hsplit, stripStretches]
    refine MarkEdit.append ?_ (ih _)
    split
    · exact markEdit_stripRegion x
    · exact .refl _

theorem markEdit_stripLabelDecorations (l : Text) : MarkEdit l (stripLabelDecorations l) :=
  markEdit_stripStretches (cuts_ofText .square l) none

theorem normalizes_normalize (l : Text) : Normalizes l (normalize l) := by
  have hcomment := (markEdit_mergeHashComment l).normalizes
  rw [normalize]
  refine hcomment.trans (Normalizes.trans ?_ ((markEdit_quotePipeLabels _).normalizes.trans
    ((markEdit_stripLabelDecorations _).normalizes.trans (normalizes_cleanLabelTail _))))
  split
  · exact .refl _
  · exact (normalizes_settleLabels _ _).trans ((markEdit_fixBrokenEdgeLabels _).normalizes.trans
      (markEdit_quoteNestedBracketLabels _).normalizes)

end Line

end DiagramRepair
