import DiagramRepair.Proofs.Placeholder.Hiding
import DiagramRepair.Proofs.Rule.Arrow
import DiagramRepair.Proofs.Rule.Cleanup
import DiagramRepair.Proofs.Rule.Comment
import DiagramRepair.Proofs.Rule.EdgeLabel
import DiagramRepair.Proofs.Rule.Node
import DiagramRepair.Proofs.Rule.Note

namespace DiagramRepair

open Pattern Rule

/-- Tokens given out before the rules run, none of which can be taken for one that a rule hides
brackets behind. -/
structure OuterTokens (T : Text → Prop) : Prop where
  tokenLike : TokenLike T
  foreign {r : Registry} : r.tag = Text.of "BR" → r.Foreign T

/-- What a change of lines owes to the tokens in them: whole tokens stay whole, and a line that is
nothing but token characters stays as it is. -/
structure SparesTokens (f : Text → Text) : Prop where
  intact {T : Text → Prop} {l : Text} : OuterTokens T → Intact T l → Intact T (f l)
  fixes {l : Text} : (∀ c ∈ l, isTokenChar c) → f l = l

structure SparesInside (E : (b u r v : Text) → Prop) : Prop where
  intact {T : Text → Prop} {b u r v w : Text} :
    TokenLike T → E b u r v → Intact T (w ++ (u ++ r)) → Intact T (w ++ v)
  breaks {b u r v : Text} : E b u r v → ∃ c ∈ u, isTokenChar c = false

structure SparesLine (R : Text → Text → Prop) : Prop where
  intact {T : Text → Prop} {l l' : Text} : TokenLike T → R l l' → Intact T l → Intact T l'
  breaks {l l' : Text} : R l l' → ∃ c ∈ l, isTokenChar c = false

variable {E : (b u r v : Text) → Prop} {R : Text → Text → Prop} {f g : Text → Text}
  {T : Text → Prop} {b u r v w t t' : Text}

theorem SparesInside.intact_edits (hE : SparesInside E) (hT : TokenLike T) (h : Edits E b t t')
    (ht : Intact T t) : Intact T t' :=
  Intact.edits (w := []) (fun _ hk ↦ hk) (hE.intact hT) h ht

theorem SparesInside.eq_self (hE : SparesInside E) (h : Edits E b t t')
    (ht : ∀ c ∈ t, isTokenChar c) : t' = t :=
  h.eq_self (P := fun c ↦ isTokenChar c) (fun _ _ _ _ he ↦ by simpa using hE.breaks he) ht

theorem SparesInside.sparesTokens (hE : SparesInside E) (hf : ∀ l, Edits E [] l (f l)) :
    SparesTokens f where
  intact hT hl := hE.intact_edits hT.tokenLike (hf _) hl
  fixes hl := hE.eq_self (hf _) hl

theorem SparesLine.sparesTokens (hR : SparesLine R) (hf : ∀ l, f l = l ∨ R l (f l)) :
    SparesTokens f where
  intact {T l} hT hl := by
    rcases hf l with h | h
    · rwa [h]
    · exact hR.intact hT.tokenLike h hl
  fixes {l} hl := by
    rcases hf l with h | h
    · exact h
    · obtain ⟨c, hc, hno⟩ := hR.breaks h
      simp [hl c hc] at hno

theorem SparesTokens.comp (hg : SparesTokens g) (hf : SparesTokens f) :
    SparesTokens fun l ↦ g (f l) where
  intact hT hl := hg.intact hT (hf.intact hT hl)
  fixes hl := by rw [hf.fixes hl, hg.fixes hl]

theorem IsIdent.intact (h : IsIdent u) : Intact T u :=
  intact_of_not_mem (not_mem_of_class h.2 (by decide))

theorem IsArrow.stops (h : IsArrow u) : Stops (u ++ r) := by
  rcases h with (rfl | rfl) | rfl | rfl <;> exact stops_sign (by decide)

theorem IsArrow.intact (h : IsArrow u) : Intact T u := by
  rcases h with (rfl | rfl) | rfl | rfl <;> exact intact_sign (by decide)

theorem IsTerminator.stops (h : IsTerminator u) (hr : Stops r) : Stops (u ++ r) := by
  obtain ⟨s, e, s', rfl, hs, he, hs'⟩ := h
  rw [List.append_assoc, List.append_assoc]
  refine Stops.blank_append ?_ hs
  rcases he with rfl | rfl
  · exact hr.blank_append hs'
  · exact stops_cons (by decide)

theorem IsTerminator.intact (h : IsTerminator u) : Intact T u := by
  obtain ⟨s, e, s', rfl, hs, he, hs'⟩ := h
  refine (intact_of_blank hs).append (Intact.append ?_ (intact_of_blank hs'))
  rcases he with rfl | rfl <;> exact intact_of_not_mem (by decide)

theorem sparesInside_dropsBracketMark : SparesInside DropsBracketMark where
  intact hT he h := by
    obtain ⟨hne, hdigits⟩ := he
    rw [List.append_nil]
    -- The mark is made of name characters; only its `K` keeps it out of tokens.
    refine h.left_of_mem hT (c := 'K') (by simp [Text.of]) ?_ (by decide)
    intro hclose
    rcases List.mem_append.mp hclose with hclose | hclose
    · exact absurd hclose (by decide)
    · rcases List.mem_append.mp hclose with hclose | hclose
      · exact not_mem_of_class hdigits (by decide) hclose
      · exact absurd hclose (by decide)
  breaks he := by
    obtain ⟨hne, hdigits⟩ := he
    exact ⟨'K', by simp [Text.of], by decide⟩

theorem sparesTokens_stripBracketMarks : SparesTokens stripBracketMarks :=
  sparesInside_dropsBracketMark.sparesTokens stripBracketMarks_edits

theorem sparesInside_dropsEmptyLabel : SparesInside DropsEmptyLabel where
  intact {T b u r v w} hT he h := by
    have hw : Intact T w := by
      cases he <;> exact h.left hT (stops_cons (by decide))
    cases he <;> simpa using hw
  breaks he := by
    cases he <;> exact ⟨'[', by simp, by decide⟩

theorem sparesTokens_removeEmptyLabels : SparesTokens removeEmptyLabels :=
  sparesInside_dropsEmptyLabel.sparesTokens removeEmptyLabels_edits

theorem straightQuote_of_isTokenChar {c : Char} (hc : isTokenChar c) : straightQuote c = c := by
  refine straightQuote_eq_self (fun h ↦ ?_) (fun h ↦ ?_)
  · have hno : ∀ c ∈ "\u201c\u201d\u201e\u201f\u2033".toList, isTokenChar c = false := by decide
    simp [hno c (by simpa [among] using h)] at hc
  · have hno : ∀ c ∈ "\u2018\u2019".toList, isTokenChar c = false := by decide
    simp [hno c (by simpa [among] using h)] at hc

theorem sparesTokens_straightenQuotes : SparesTokens straightenQuotes where
  intact {T l} hT hl := by
    refine hl.map hT.tokenLike (fun c hc ↦ straightQuote_of_isTokenChar hc) (fun c hc ↦ ?_)
    rcases straightQuote_cases c with h | h | h
    · rwa [h] at hc
    · rw [h] at hc
      exact absurd hc (by decide)
    · rw [h] at hc
      exact absurd hc (by decide)
  fixes {l} hl := by
    rw [straightenQuotes, List.map_congr_left (fun c hc ↦ straightQuote_of_isTokenChar (hl c hc)),
      List.map_id']

theorem sparesInside_dropsInnerQuotes : SparesInside DropsInnerQuotes where
  intact {T b u r v w} hT he h := by
    obtain ⟨⟩ := he
    rename_i x
    simp only [List.cons_append, List.append_assoc, List.nil_append] at h
    have hw := h.left hT (stops_cons (by decide))
    have hx := h.of_append.of_cons.of_cons.left hT (stops_cons (by decide))
    have hlabel := (hx.dropQuotes hT).append (intact_sign (s := "\"]") (by decide))
    exact hw.append ((intact_sign (s := "[\"") (by decide)).append hlabel)
  breaks he := by
    obtain ⟨⟩ := he
    exact ⟨'[', by simp, by decide⟩

theorem sparesTokens_stripInnerQuotes : SparesTokens stripInnerQuotes :=
  sparesInside_dropsInnerQuotes.sparesTokens stripInnerQuotes_edits

theorem exists_of_isInvalidArrow (h : IsInvalidArrow u) :
    ∃ c u', u = c :: u' ∧ isTokenChar c = false := by
  rcases h with rfl | ⟨s, rfl, -⟩ | ⟨c, rfl | rfl, rfl⟩ | rfl | rfl
  all_goals exact ⟨_, _, rfl, by decide⟩

theorem sparesInside_fixesInvalidArrow : SparesInside FixesInvalidArrow where
  intact hT he h := by
    obtain ⟨hu⟩ := he
    obtain ⟨c, u, rfl, hc⟩ := exists_of_isInvalidArrow hu
    exact (h.left hT (stops_cons hc)).append (intact_sign (by decide))
  breaks he := by
    obtain ⟨hu⟩ := he
    obtain ⟨c, u, rfl, hc⟩ := exists_of_isInvalidArrow hu
    exact ⟨c, by simp, hc⟩

theorem sparesLine_turnsEdge : SparesLine TurnsEdge where
  intact hT h hl := by
    obtain ⟨hindent, hleft, hs, hs', hright, htail, hr⟩ := h
    have hfromLeft := hl.of_append
    have hfromRight := hfromLeft.of_append.of_append.of_append.of_append
    have hleft := hfromLeft.left hT ((stops_sign (by decide)).blank_append hs)
    have hright := hfromRight.left hT (htail.stops (stops_lineEnd hr))
    exact (intact_of_blank hindent).append (hright.append ((intact_sign (by decide)).append
      (hleft.append htail.intact)))
  breaks h := by
    obtain ⟨hindent, hleft, hs, hs', hright, htail, hr⟩ := h
    exact ⟨'<', by simp [Text.of], by decide⟩

theorem sparesTokens_fixReversedEdges : SparesTokens fixReversedEdges :=
  sparesLine_turnsEdge.sparesTokens fixReversedEdges_cases

theorem sparesLine_movesPipe : SparesLine MovesPipe where
  intact {T l l'} hT h hl := by
    obtain ⟨hindent, hlabel, hs, hsource, hs₁, harrow, hs₂, htarget, hs₃, hr⟩ := h
    have hfromLabel := hl.of_append.of_append
    have hfromSource := hfromLabel.of_append.of_append.of_append
    have hfromTarget := hfromSource.of_append.of_append.of_append.of_append
    have hlabel := hfromLabel.left hT (stops_sign (by decide))
    have hsource := hfromSource.left hT ((IsArrow.stops (.inl harrow)).blank_append hs₁.2)
    have htarget := hfromTarget.left hT ((stops_lineEnd hr).blank_append hs₃)
    have hright := hlabel.append ((intact_sign (s := "| ") (by decide)).append htarget)
    have hedge := (IsArrow.intact (.inl harrow)).append
      ((intact_sign (s := "|") (by decide)).append hright)
    exact (intact_of_blank hindent).append (hsource.append
      ((intact_sign (s := " ") (by decide)).append hedge))
  breaks h := by
    obtain ⟨hindent, hlabel, hs, hsource, hs₁, harrow, hs₂, htarget, hs₃, hr⟩ := h
    exact ⟨'>', by simp [Text.of], by decide⟩

theorem sparesTokens_fixMisplacedPipes : SparesTokens fixMisplacedPipes :=
  sparesLine_movesPipe.sparesTokens fixMisplacedPipes_cases

theorem sparesInside_closesLabel : SparesInside ClosesLabel where
  intact hT he h := by
    obtain ⟨⟩ := he
    exact (h.left hT (stops_sign (by decide))).append (intact_sign (by decide))
  breaks he := by
    obtain ⟨⟩ := he
    exact ⟨'>', by simp [Text.of], by decide⟩

theorem sparesInside_opensLabel : SparesInside OpensLabel where
  intact hT he h := by
    obtain ⟨⟩ := he
    exact (h.left hT (stops_sign (by decide))).append (intact_sign (by decide))
  breaks he := by
    obtain ⟨⟩ := he
    exact ⟨'"', by simp [Text.of], by decide⟩

/-- The brackets are hidden and put back behind tokens that are foreign to the family. -/
theorem sparesTokens_fixMalformedArrowLabels [Nonces] : SparesTokens fixMalformedArrowLabels where
  intact {T l} hT hl := by
    rw [fixMalformedArrowLabels]
    split
    · exact hl
    · obtain ⟨hproper, htag⟩ := hideBracketRegions_registry l
      have hapart : Registry.Apart _ T := ⟨hproper, hT.tokenLike, hT.foreign htag⟩
      have hshown := intact_hideBracketRegions hT.tokenLike hl
      have hclosed := sparesInside_closesLabel.intact_edits hapart.tokenLike_known
        (closeLabelBeforeArrow_edits _) hshown
      have hopened := sparesInside_opensLabel.intact_edits hapart.tokenLike_known
        (openLabelAfterDashes_edits _) hclosed
      exact Registry.intact_restore hapart
        (fun u hu ↦ intact_of_mem_bracketRegions hT.tokenLike hl hu) hopened
  fixes {l} hl := by
    have hdash : ¬ Text.includes ['-', '-'] l := by
      rw [Text.includes_iff]
      exact fun h ↦ not_mem_of_class (c := '-') hl (by decide) (h.subset (by simp))
    simp [fixMalformedArrowLabels, hdash]

theorem sparesLine_relocatesLabel : SparesLine RelocatesLabel where
  intact {T l l'} hT h hl := by
    obtain ⟨hhead, harrow, hs, htarget, hs', hlabel, hs'', he⟩ := h
    have hfromTarget := hl.of_append.of_append.of_append
    have hfromLabel := hfromTarget.of_append.of_append.of_append.of_append
    have hhead := hl.left hT (IsArrow.stops (.inl harrow))
    have htarget := hfromTarget.left hT (stops_sign (by decide))
    have hlabel := hfromLabel.left hT (stops_sign (by decide))
    have htail := (htarget.append (intact_sign (s := ";") (by decide))).trim hT
    have hedge := (IsArrow.intact (.inl harrow)).append
      ((intact_sign (s := " ") (by decide)).append htail)
    exact (hhead.trimEnd hT).append ((intact_sign (by decide)).append
      (hlabel.append ((intact_sign (by decide)).append hedge)))
  breaks h := by
    obtain ⟨hhead, harrow, hs, htarget, hs', hlabel, hs'', he⟩ := h
    exact ⟨'"', by simp [Text.of], by decide⟩

theorem sparesTokens_relocateTrailingLabels : SparesTokens relocateTrailingLabels :=
  sparesLine_relocatesLabel.sparesTokens relocateTrailingLabels_cases

theorem stops_optQuote {q : Text} (hq : q = ['"'] ∨ q = []) (hr : Stops r) : Stops (q ++ r) := by
  rcases hq with rfl | rfl
  · exact stops_cons (by decide)
  · exact hr

theorem stops_closing {c : Text} (hc : c = [']'] ∨ c = ['\x7d']) : Stops (c ++ r) := by
  rcases hc with rfl | rfl <;> exact stops_cons (by decide)

theorem sparesInside_convertsGroup : SparesInside ConvertsGroup where
  intact {T b u r v w} hT he h := by
    have hlabelled : ∀ {name}, Intact T w → Intact T name →
        Intact T (w ++ (Text.of "-- \"" ++ (Text.trim name ++ Text.of "\" -->"))) :=
      fun hw hname ↦ hw.append ((intact_sign (by decide)).append ((hname.trim hT).append
        (intact_sign (by decide))))
    cases he with
    | named hs hs₁ hq hname hq' hs₂ =>
      simp only [List.append_assoc] at h
      have hname := h.of_append.of_append.of_append.of_append.of_append.of_append.left hT
        (stops_optQuote hq' ((stops_sign (by decide)).blank_append hs₂))
      exact hlabelled (h.left hT (stops_sign (by decide))) hname
    | bracketed hs ho hs₁ hq hlabel hq' hs₂ hc hs₃ =>
      simp only [List.append_assoc] at h
      have hclose := fun t ↦ stops_closing (r := t) hc
      have hlabel := h.of_append.of_append.of_append.of_append.of_append.of_append.left hT
        (stops_optQuote hq' ((hclose _).blank_append hs₂))
      exact hlabelled (h.left hT (stops_sign (by decide))) hlabel
  breaks he := by
    cases he <;> exact ⟨'-', by simp [Text.of], by decide⟩

theorem sparesTokens_convertGroupLabels : SparesTokens convertGroupLabels :=
  sparesInside_convertsGroup.sparesTokens convertGroupLabels_edits

theorem Intact.unquote (h : Intact T u) (hT : TokenLike T) : Intact T (unquote u) := by
  have htrim := h.trim hT
  rcases unquote_cases u with hu | hu
  · rwa [hu]
  · rw [hu] at htrim
    exact htrim.of_cons.left hT (stops_cons (by decide))

theorem sparesInside_mergesLabels : SparesInside MergesLabels where
  intact {T b u r v w} hT he h := by
    cases he with
    | separated hs hfirst hs₁ hs₂ hsecond hs₃ harrow =>
      simp only [List.append_assoc] at h
      have hfromFirst := h.of_append.of_append.of_append
      have hfromSecond := hfromFirst.of_append.of_append.of_append.of_append
      have hfirst := hfromFirst.left hT ((stops_sign (by decide)).blank_append hs₁)
      have hsecond := hfromSecond.left hT ((IsArrow.stops (.inl harrow)).blank_append hs₃)
      have hedge := (intact_sign (s := "\" ") (by decide)).append
        (IsArrow.intact (.inl harrow) (T := T))
      exact (h.left hT (stops_sign (by decide))).append ((intact_sign (by decide)).append
        ((hfirst.unquote hT).append ((intact_sign (by decide)).append
          ((hsecond.unquote hT).append hedge))))
    | piped hs hfirst hs₁ hs₂ hq hsecond hq' =>
      simp only [List.append_assoc] at h
      have hfromFirst := h.of_append.of_append.of_append.of_append
      have hfromSecond :=
        hfromFirst.of_append.of_append.of_append.of_append.of_append.of_append.of_append
      have hfirst := hfromFirst.left hT (stops_sign (by decide))
      have hsecond := hfromSecond.left hT (stops_optQuote hq' (stops_sign (by decide)))
      exact (h.left hT (stops_sign (by decide))).append ((intact_sign (by decide)).append
        (hfirst.append ((intact_sign (by decide)).append ((hsecond.trim hT).append
          (intact_sign (by decide))))))
  breaks he := by
    cases he <;> exact ⟨'-', by simp [Text.of], by decide⟩

theorem sparesTokens_mergeDoubleLabels : SparesTokens mergeDoubleLabels :=
  (sparesInside_mergesLabels.sparesTokens mergePipeLabels_edits).comp
    (sparesInside_mergesLabels.sparesTokens mergeSeparatedLabels_edits)

theorem sparesInside_promotesDash : SparesInside PromotesDash where
  intact {T b u r v w} hT he h := by
    obtain ⟨hs, htarget, hs', hs'', hr⟩ := he
    have hu := Intact.left (s := w ++ _) (by rwa [List.append_assoc]) hT (stops_lineEnd hr)
    exact (hu.left hT (stops_sign (by decide))).append ((intact_sign (by decide)).append
      hu.of_append.of_append)
  breaks he := by
    obtain ⟨hs, htarget, hs', hs'', hr⟩ := he
    exact ⟨'-', by simp [Text.of], by decide⟩

theorem sparesTokens_promoteDoubleDash : SparesTokens promoteDoubleDash :=
  sparesInside_promotesDash.sparesTokens promoteDoubleDash_edits

theorem sparesInside_quotesBarLabel : SparesInside QuotesBarLabel where
  intact {T b u r v w} hT he h := by
    obtain ⟨harrow, hs, hlabel⟩ := he
    simp only [List.append_assoc] at h
    have hlabel := h.of_append.of_append.of_append.of_append.left hT (stops_sign (by decide))
    exact (h.left hT harrow.stops).append (harrow.intact.append ((intact_of_blank hs).append
      ((intact_sign (by decide)).append (hlabel.append (intact_sign (by decide))))))
  breaks he := by
    obtain ⟨harrow, hs, hlabel⟩ := he
    exact ⟨'|', by simp [Text.of], by decide⟩

theorem sparesTokens_quotePipeLabels : SparesTokens Line.quotePipeLabels :=
  sparesInside_quotesBarLabel.sparesTokens quotePipeLabels_edits

theorem sparesInside_quotesEdgeLabel : SparesInside QuotesEdgeLabel where
  intact {T b u r v w} hT he h := by
    obtain ⟨hs, hlabel, hs', harrow, -⟩ := he
    simp only [List.append_assoc] at h
    have hlabel := h.of_append.of_append.of_append.left hT
      ((IsArrow.stops (.inl harrow)).blank_append hs')
    exact (h.left hT (stops_sign (by decide))).append ((intact_sign (by decide)).append
      ((hlabel.trim hT).append ((intact_sign (by decide)).append
        (IsArrow.intact (.inl harrow)))))
  breaks he := by
    obtain ⟨hs, hlabel, hs', harrow, -⟩ := he
    exact ⟨'-', by simp [Text.of], by decide⟩

theorem sparesTokens_quoteEdgeLabels : SparesTokens quoteEdgeLabels :=
  sparesInside_quotesEdgeLabel.sparesTokens quoteEdgeLabels_edits

theorem sparesLine_splitsEdge : SparesLine SplitsEdge where
  intact {T l l'} hT h hl := by
    obtain ⟨hindent, hsource, hs, hs₁, hmiddle, hs₂, harrow, hs₃, htarget, hs₄, he⟩ := h
    have hfromSource := hl.of_append
    have hfromMiddle := hfromSource.of_append.of_append.of_append.of_append
    have hfromTarget := hfromMiddle.of_append.of_append.of_append.of_append
    have hsource := hfromSource.left hT ((stops_sign (by decide)).blank_append hs.2)
    have hmiddle := hfromMiddle.left hT ((IsArrow.stops (.inl harrow)).blank_append hs₂.2)
    have htarget := hfromTarget.left hT ((stops_lineEnd he).blank_append hs₄)
    have hedge := (IsArrow.intact (.inl harrow)).append
      ((intact_sign (s := " ") (by decide)).append htarget)
    have hline := (intact_of_blank hindent).append (hmiddle.append
      ((intact_sign (s := " ") (by decide)).append hedge))
    exact (intact_of_blank hindent).append (hsource.append ((intact_sign (by decide)).append
      (hmiddle.append ((intact_sign (s := "\n") (by decide)).append hline))))
  breaks h := by
    obtain ⟨hindent, hsource, hs, hs₁, hmiddle, hs₂, harrow, hs₃, htarget, hs₄, he⟩ := h
    exact ⟨'-', by simp [Text.of], by decide⟩

theorem sparesTokens_splitIntermediateNodes : SparesTokens splitIntermediateNodes :=
  sparesLine_splitsEdge.sparesTokens splitIntermediateNodes_cases

def Seals (u : Text) : Prop := ∃ x c, u = x ++ [c] ∧ isTokenChar c = false

theorem IsArrow.seals (h : IsArrow u) : Seals u := by
  rcases h with (rfl | rfl) | rfl | rfl
  · exact ⟨['-', '-'], '>', rfl, by decide⟩
  · exact ⟨['-', '-'], '-', rfl, by decide⟩
  · exact ⟨['=', '='], '>', rfl, by decide⟩
  · exact ⟨['-', '.', '-'], '>', rfl, by decide⟩

theorem Rule.IsLabelledArrow.seals (h : IsLabelledArrow u) : Seals u := by
  rcases h with h | ⟨s, x, s', rfl, -⟩
  · exact IsArrow.seals (.inl h)
  · exact ⟨Text.of "--" ++ (s ++ (Text.of "\"" ++ (x ++ (Text.of "\"" ++ (s' ++ Text.of "--"))))),
      '>', by simp [Text.of], by decide⟩

theorem Rule.IsHead.seals {Q : Text → Prop} (h : IsHead Q u) (hQ : ∀ a, Q a → Seals a) :
    Seals u := by
  obtain ⟨arrow, bar, s, rfl, harrow, hbar, hs⟩ := h
  rcases List.eq_nil_or_concat s with rfl | ⟨s, c, rfl⟩
  · rcases hbar with rfl | ⟨s, x, rfl, -, -⟩
    · simpa using hQ arrow harrow
    · exact ⟨arrow ++ (s ++ '|' :: x), '|', by simp, by decide⟩
  · exact ⟨arrow ++ (bar ++ s), c, by simp, not_isTokenChar_of_isBlank (hs c (by simp))⟩

theorem Rule.IsQuotedLabel.seals (h : IsQuotedLabel u) : Seals u := by
  obtain ⟨x, rfl, -⟩ := h
  exact ⟨Text.of "[\"" ++ (x ++ Text.of "\""), ']', by simp [Text.of], by decide⟩

theorem Intact.left_of_seals (h : Intact T (w ++ (u ++ r))) (hT : TokenLike T) (hu : Seals u) :
    Intact T (w ++ u) := by
  obtain ⟨x, c, rfl, hc⟩ := hu
  rw [← List.append_assoc]
  exact Intact.left_snoc (t := r) (by simpa using h) hT hc

theorem sparesLine_splitsTarget : SparesLine SplitsTarget where
  intact {T l l'} hT h hl := by
    obtain ⟨hhead, hstart, hremainder, hrest, he, hr⟩ := h
    have hhead := hl.left_of_seals hT (hhead.seals fun _ h ↦ h.seals)
    have hfromEnd := hl.of_append.of_append.of_append.of_append.of_append
    have hlabel := Intact.left (s := _ ++ _) (by simpa only [List.append_assoc] using
      hl.of_append.of_append.of_append) hT (he.stops (stops_lineEnd hr))
    have htail := (intact_sign (s := "\"]") (by decide)).append hfromEnd
    rw [← List.append_assoc]
    exact hhead.append (hstart.intact.append ((intact_sign (by decide)).append
      (((hlabel.trim hT).dropQuotes hT).append htail)))
  breaks h := by
    obtain ⟨hhead, hstart, hremainder, hrest, he, hr⟩ := h
    obtain ⟨x, c, rfl, hc⟩ := hhead.seals fun _ h ↦ h.seals
    exact ⟨c, by simp, hc⟩

theorem sparesInside_wrapsLabel : SparesInside WrapsLabel where
  intact {T b u r v w} hT he h := by
    obtain ⟨hhead, hid, hcontent, hlabel⟩ := he
    simp only [List.append_assoc] at h
    have hhead := h.left_of_seals hT (hhead.seals fun _ h ↦ h.seals)
    have hcontent := h.of_append.of_append.of_append.left hT (stops_sign (by decide))
    have htail := (intact_sign (T := T) (s := "\"]") (by decide)).append
      (intact_sign (s := ";") (by decide))
    rw [← List.append_assoc]
    exact hhead.append (hid.intact.append ((intact_sign (by decide)).append
      (((hcontent.trim hT).dropQuotes hT).append htail)))
  breaks he := by
    obtain ⟨hhead, hid, hcontent, hlabel⟩ := he
    exact ⟨';', by simp [Text.of], by decide⟩

theorem sparesTokens_wrapMissingBrackets : SparesTokens wrapMissingBrackets :=
  sparesInside_wrapsLabel.sparesTokens wrapMissingBrackets_edits

theorem sparesInside_opensBracket : SparesInside OpensBracket where
  intact hT he h := by
    obtain ⟨-⟩ := he
    exact (h.left hT (stops_cons (by decide))).append (intact_sign (by decide))
  breaks he := by
    obtain ⟨-⟩ := he
    exact ⟨'[', by simp [Text.of], by decide⟩

theorem sparesInside_closesBracket : SparesInside ClosesBracket where
  intact hT he h := by
    obtain ⟨-⟩ := he
    exact (h.left hT (stops_cons (by decide))).append (intact_sign (by decide))
  breaks he := by
    obtain ⟨-⟩ := he
    exact ⟨'"', by simp [Text.of], by decide⟩

theorem sparesTokens_fixExcessiveBrackets : SparesTokens fixExcessiveBrackets where
  intact {T l} hT hl := by
    obtain ⟨t, hopens, hcloses⟩ := fixExcessiveBrackets_edits l
    exact sparesInside_closesBracket.intact_edits hT.tokenLike hcloses
      (sparesInside_opensBracket.intact_edits hT.tokenLike hopens hl)
  fixes {l} hl := by
    obtain ⟨t, hopens, hcloses⟩ := fixExcessiveBrackets_edits l
    obtain rfl := sparesInside_opensBracket.eq_self hopens hl
    exact sparesInside_closesBracket.eq_self hcloses hl

theorem sparesInside_collapsesLabels : SparesInside CollapsesLabels where
  intact {T b u r v w} hT he h := by
    obtain ⟨hid, hne, hlabels, hlabel⟩ := he
    rename_i id labels label
    have hstops : Stops (labels.flatten ++ label ++ r) := by
      obtain ⟨l, labels, rfl⟩ := List.exists_cons_of_ne_nil hne
      obtain ⟨x, rfl, -⟩ := hlabels l (by simp)
      exact stops_cons (by decide)
    have hid := Intact.left (s := w ++ id) (by simpa using h) hT hstops
    have hlabel := Intact.left_of_seals (w := []) (u := label) (r := r) ?_ hT hlabel.seals
    · rw [← List.append_assoc]
      exact hid.append hlabel
    · exact Intact.of_append (s := w ++ (id ++ labels.flatten)) (by simpa using h)
  breaks he := by
    obtain ⟨hid, hne, hlabels, hlabel⟩ := he
    obtain ⟨x, c, rfl, hc⟩ := hlabel.seals
    exact ⟨c, by simp, hc⟩

theorem sparesTokens_collapseDuplicateLabels : SparesTokens collapseDuplicateLabels :=
  sparesInside_collapsesLabels.sparesTokens collapseDuplicateLabels_edits

theorem sparesInside_quotesLabel : SparesInside QuotesLabel where
  intact {T b u r v w} hT he h := by
    cases he with
    | plain hid hcontent =>
      simp only [List.append_assoc] at h
      have hcontent := h.of_append.of_append.of_append.left hT (stops_sign (by decide))
      have hlabel := (hcontent.dropQuotes hT).trim hT
      rw [← List.append_assoc] at h ⊢
      exact (h.left hT (stops_sign (by decide))).append ((intact_sign (by decide)).append
        (hlabel.append (intact_sign (by decide))))
    | terminated hid hcontent hs =>
      simp only [List.append_assoc] at h
      have hcontent := h.of_append.of_append.of_append.left hT (stops_sign (by decide))
      have hlabel := (hcontent.dropQuotes hT).trim hT
      have htail := (intact_sign (T := T) (s := "\"]") (by decide)).append
        (intact_sign (s := ";") (by decide))
      rw [← List.append_assoc] at h ⊢
      exact (h.left hT (stops_sign (by decide))).append ((intact_sign (by decide)).append
        (hlabel.append htail))
  breaks he := by
    cases he <;> exact ⟨'[', by simp [Text.of], by decide⟩

theorem sparesTokens_quoteUnsafeNodeLabels : SparesTokens quoteUnsafeNodeLabels :=
  sparesInside_quotesLabel.sparesTokens quoteUnsafeNodeLabels_edits

theorem intact_singleQuotes (hu : Intact T u) (hT : TokenLike T) : Intact T (singleQuotes u) := by
  refine hu.map hT (fun c hc ↦ if_neg (ne_of_class hc (by decide))) (fun c hc ↦ ?_)
  split at hc
  · exact absurd hc (by decide)
  · exact hc

theorem Rule.LabelsEdge.intact {comment : Text} (he : LabelsEdge comment b u r v)
    (hT : TokenLike T) (hcomment : Intact T comment) (h : Intact T (w ++ (u ++ r))) :
    Intact T (w ++ v) := by
  have happend : ∀ {label}, Intact T w → Intact T label → Intact T (w ++ (Text.of "-- \"" ++
      (Text.trim label ++ '(' :: (comment ++ Text.of ")\" -->")))) :=
    fun hw hlabel ↦ hw.append ((intact_sign (by decide)).append ((hlabel.trim hT).append
      ((intact_sign (s := "(") (by decide)).append (hcomment.append (intact_sign (by decide))))))
  cases he with
  | quoted hs hlabel hs' =>
    simp only [List.append_assoc] at h
    have hlabel := h.of_append.of_append.of_append.of_append.left hT (stops_sign (by decide))
    exact happend (h.left hT (stops_sign (by decide))) hlabel
  | unquoted hs hlabel hs' =>
    simp only [List.append_assoc] at h
    have hlabel := h.of_append.of_append.of_append.left hT
      ((stops_sign (by decide)).blank_append hs')
    exact happend (h.left hT (stops_sign (by decide))) hlabel
  | bare hs =>
    simp only [List.append_assoc] at h
    have hbefore := h.left hT ((stops_sign (by decide)).blank_append hs)
    exact hbefore.append ((intact_sign (by decide)).append
      (hcomment.append (intact_sign (by decide))))

theorem sparesLine_mergesComment : SparesLine MergesComment where
  intact {T l l'} hT h hl := by
    obtain ⟨hbody, hs, hmarks, hs', hcomment, hs'', he, hedit⟩ := h
    have hcomment := hl.of_append.of_cons.of_append.of_append.of_append.left hT
      ((stops_lineEnd he).blank_append hs'')
    have hl := hl.left_snoc hT (by decide)
    rw [← hbody] at hl
    rw [← List.append_assoc]
    exact (hedit.intact hT (intact_singleQuotes hcomment hT) hl).append hl.of_append.of_append
  breaks h := by
    obtain ⟨hbody, hs, hmarks, hs', hcomment, hs'', he, hedit⟩ := h
    exact ⟨';', by simp, by decide⟩

theorem Rule.IsFoldedIdent.intact (h : IsFoldedIdent u) : Intact T u :=
  intact_of_not_mem (not_mem_of_class h.2 (by decide))

theorem intact_ofNat (n : Nat) : Intact T (Text.ofNat n) :=
  intact_of_not_mem (not_mem_of_class (fun _ ↦ isDigit_of_mem_ofNat) (by decide))

theorem IsNoteName.intact {node name : Text} (h : IsNoteName node name) (hnode : Intact T node) :
    Intact T name := by
  rcases h with rfl | ⟨n, rfl⟩
  · exact (intact_sign (by decide)).append hnode
  · exact (intact_sign (by decide)).append (hnode.append
      ((intact_sign (s := "_") (by decide)).append (intact_ofNat n)))

theorem Rule.LabelsPlainEdge.intact {text edge edge' : Text} (h : LabelsPlainEdge text edge edge')
    (hT : TokenLike T) (htext : Intact T text) (hl : Intact T edge) : Intact T edge' := by
  obtain ⟨hindent, hsource, hlabel, hs, harrow, hs', htarget, hrest, he⟩ := h
  have hlabel := hl.of_append.of_append.left hT ((IsArrow.stops (.inl harrow)).blank_append hs)
  have hrest := hl.of_append.of_append.of_append.of_append.of_append.of_append.of_append.left hT
    (stops_lineEnd he)
  have htail := (intact_sign (s := " ") (by decide)).append (htarget.intact.append hrest)
  exact (intact_of_blank hindent).append (hsource.intact.append (hlabel.append
    ((intact_sign (by decide)).append (htext.append ((intact_sign (by decide)).append
      ((IsArrow.intact (.inl harrow)).append htail))))))

theorem intact_escapeQuotes (hu : Intact T u) (hT : TokenLike T) : Intact T (escapeQuotes u) := by
  refine hu.flatMap hT (fun c hc ↦ if_neg (ne_of_class hc (by decide))) (fun c hc ↦ ?_)
  split at hc
  · exact absurd hc (by decide)
  · exact (List.mem_singleton.mp hc).symm

theorem Rule.IsNote.intact {line indent node text : Text} (h : IsNote line indent node text)
    (hT : TokenLike T) (hl : Intact T line) :
    Intact T indent ∧ Intact T node ∧ Intact T text := by
  cases h with
  | side hindent hnote hs hside hs₁ hof hs₂ hid hs₃ hs₄ htext hs₅ he =>
    have htext := hl.of_append.of_append.of_append.of_append.of_append.of_append.of_append.of_append
      |>.of_append.of_append.of_append.left hT ((stops_lineEnd he).blank_append hs₅)
    exact ⟨intact_of_blank hindent, hid.intact, intact_escapeQuotes htext hT⟩
  | quoted hindent hnote hs hparticle hid hs₁ hcolon hs₂ htext hs₃ hsemicolon hs₄ he =>
    have htext := hl.of_append.of_append.of_append.of_append.of_append.of_append.of_append.of_append
      |>.of_append.left hT (stops_sign (by decide))
    exact ⟨intact_of_blank hindent, hid.intact, htext⟩

theorem Rule.ConvertsNote.intact {done done' : List Text} {line : Text}
    (h : ConvertsNote done line done') (hT : TokenLike T) (hdone : ∀ l ∈ done, Intact T l)
    (hline : Intact T line) : ∀ l ∈ done', Intact T l := by
  cases h with
  | keep => simpa using ⟨hline, hdone⟩
  | attach hnote hdone' hedge =>
    obtain ⟨-, -, htext⟩ := hnote.intact hT hline
    subst hdone'
    intro l hl
    simp only [List.mem_append, List.mem_cons] at hl hdone
    rcases hl with hl | rfl | hl
    · exact hdone l (.inl hl)
    · exact hedge.intact hT htext (hdone _ (.inr (.inl rfl)))
    · exact hdone l (.inr (.inr hl))
  | node hnote hname =>
    obtain ⟨hindent, hnode, htext⟩ := hnote.intact hT hline
    have hname := hname.intact hnode
    intro l hl
    simp only [noteNode, List.cons_append, List.nil_append, List.mem_cons] at hl
    rcases hl with rfl | rfl | hl
    · exact ((hindent.append hnode).append (intact_sign (by decide))).append hname
    · exact (((hindent.append hname).append (intact_sign (by decide))).append htext).append
        (intact_of_not_mem (by decide))
    · exact hdone l hl

theorem intact_convertNoteLines (hT : TokenLike T) (ids done : List Text) (names : NoteNames)
    (ls : List Text) (hdone : ∀ l ∈ done, Intact T l) (hls : ∀ l ∈ ls, Intact T l) :
    ∀ l ∈ (convertNoteLines ids done names ls).1, Intact T l := by
  induction ls generalizing done names with
  | nil => simpa [convertNoteLines] using hdone
  | cons line ls ih =>
    rw [convertNoteLines]
    exact ih _ _ ((convertsNote ids done names line).intact hT hdone (hls line (by simp)))
      (fun l hl ↦ hls l (by simp [hl]))

end DiagramRepair
