import DiagramRepair.Proofs.Flowchart.Spelling
import DiagramRepair.Proofs.Line.Normal
import DiagramRepair.Proofs.Rule.Arrow
import DiagramRepair.Proofs.Rule.Cleanup
import DiagramRepair.Proofs.Rule.Comment
import DiagramRepair.Proofs.Rule.Node

namespace DiagramRepair.Flowchart

open Pattern Rule

variable {c : Char} {l t : Text}

theorem stripBracketMarks_eq (h : Spelled l) : stripBracketMarks l = l := by
  refine (stripBracketMarks_edits l).eq_self (fun b u r v he ↦ ?_) fun c hc ↦ h.isSign hc
  obtain ⟨-, -⟩ := he
  exact ⟨'_', by simp [Text.of], by decide⟩

theorem removeEmptyLabels_eq (h : Spelled l) : removeEmptyLabels l = l := by
  refine (removeEmptyLabels_edits l).eq_of_forall fun s u r v hl he ↦ ?_
  cases he with
  | quoted =>
    have hpair : ['"', '"'] <:+: l := ⟨s ++ ['['], ']' :: r, by simp [hl]⟩
    exact absurd hpair (h.no_pair (by decide))
  | @blank x _ _ hx =>
    cases x with
    | nil => exact absurd ⟨s, r, by simp [hl]⟩ (h.no_pair (c := '[') (d := ']') (by decide))
    | cons d x =>
      have hpair : mayFollow '[' d := h.pair ⟨s, x ++ ']' :: r, by simp [hl]⟩
      obtain rfl := beq_iff_eq.mp hpair
      exact absurd (hx '"' (by simp)) (by decide)

theorem straightQuote_of_isSign (hc : isSign c) : straightQuote c = c := by
  have hdouble : ∀ d ∈ "\u201c\u201d\u201e\u201f\u2033".toList, isSign d = false := by decide
  have hsingle : ∀ d ∈ "\u2018\u2019".toList, isSign d = false := by decide
  refine straightQuote_eq_self (fun h ↦ ?_) fun h ↦ ?_
  · simp [hdouble c (among_eq_true.mp h)] at hc
  · simp [hsingle c (among_eq_true.mp h)] at hc

theorem straightenQuotes_eq (h : Spelled l) : straightenQuotes l = l := by
  rw [straightenQuotes, List.map_congr_left fun c hc ↦ straightQuote_of_isSign (h.isSign hc),
    List.map_id']

theorem mergeTrailingComments_eq (h : Spelled l) : mergeTrailingComments l = .ok l := by
  have hback : Text.BackslashAtEnd l := by
    rintro s v rfl
    exact absurd (by simp) (h.not_mem (c := '\\') (by decide))
  obtain ⟨t, ht, rfl | hmerges⟩ := mergeTrailingComments_ok hback
  · exact ht
  · obtain ⟨hbody, hs, ⟨hne, hmarks⟩, -⟩ := hmerges
    obtain ⟨c, marks, rfl⟩ := List.exists_cons_of_ne_nil hne
    have hc := h.isSign (c := c) (by simp)
    rcases hmarks c (by simp) with rfl | rfl <;> exact absurd hc (by decide)

/-- Blanks end before the character only where a line may start with it. -/
theorem Spelled.not_after_blanks (h : Spelled t) {p q r : Text} {d : Char}
    (ht : t = q ++ (p ++ d :: r)) (hp : Blank p) (hq : q = [] ∨ p ≠ []) :
    mayFollow ' ' d ∨ mayFollow '\n' d := by
  obtain ⟨c, hbefore, hfollow⟩ := h.exists_before (p := q ++ p) (d := d) (r := r) (by simp [ht])
  rcases List.eq_nil_or_concat p with rfl | ⟨p, e, rfl⟩
  · obtain rfl := hq.resolve_right (by simp)
    simp_all
  · have hce : c = e := by
      rcases hbefore with ⟨hnil, -⟩ | ⟨p', hp'⟩
      · simp at hnil
      · rw [List.concat_eq_append, ← List.append_assoc] at hp'
        simpa using (List.append_inj' hp' rfl).2.symm
    subst hce
    have hsign := h.isSign (c := c) (by simp [ht])
    rcases eq_of_isSign_of_isBlank hsign (hp c (by simp)) with rfl | rfl
    · exact .inl hfollow
    · exact .inr hfollow

theorem fixInvalidArrows_eq (h : Spelled t) : fixInvalidArrows t = t := by
  refine (fixInvalidArrows_edits t).eq_of_forall fun s u r v ht he ↦ ?_
  obtain ⟨hu⟩ := he
  have hmem : ∀ c ∈ u, isSign c := fun c hc ↦ h.isSign (by simp [ht, hc])
  rcases hu with rfl | ⟨x, rfl, hne, hx⟩ | ⟨c, rfl | rfl, rfl⟩ | rfl | rfl
  · have hpair : ['-', '|'] <:+: t := ⟨s ++ ['-'], '>' :: r, by simp [ht, Text.of]⟩
    exact absurd hpair (h.no_pair (by decide))
  · have hbefore := h.not_after_blanks (q := s ++ ['-', '-']) (d := '>') (r := r) (by simp [ht]) hx
      (.inr hne)
    exact absurd hbefore (by decide)
  · exact absurd (hmem '\u2014' (by simp)) (by decide)
  · exact absurd (hmem '\u2013' (by simp)) (by decide)
  · have hpair : ['>', '>'] <:+: t := ⟨s ++ ['-', '-'], r, by simp [ht, Text.of]⟩
    exact absurd hpair (h.no_pair (by decide))
  · exact absurd (hmem '\u2192' (by simp [Text.of])) (by decide)

theorem fixMisplacedPipes_eq (h : Spelled l) : fixMisplacedPipes l = l := by
  refine (fixMisplacedPipes_cases l).resolve_right fun hmoves ↦ ?_
  generalize fixMisplacedPipes l = l' at hmoves
  cases hmoves with
  | mk hindent =>
    have hbefore := h.not_after_blanks (q := []) (d := '>') rfl hindent (.inl rfl)
    exact absurd hbefore (by decide)

theorem relocateTrailingLabels_eq (h : Spelled l) (hl : '\n' ∉ l) :
    relocateTrailingLabels l = l := by
  refine (relocateTrailingLabels_cases l).resolve_right fun hrelocates ↦ ?_
  generalize relocateTrailingLabels l = l' at hrelocates
  cases hrelocates with
  | @mk head arrow s target s' label s'' e _ _ _ _ hs' =>
    cases s' with
    | nil =>
      refine absurd ?_ (h.no_pair (c := ';') (d := '"') (by decide))
      exact ⟨head ++ (arrow ++ (s ++ target)), label ++ '"' :: (s'' ++ e), by simp [Text.of]⟩
    | cons d s' =>
      have hpair : mayFollow ';' d := by
        refine h.pair
          ⟨head ++ (arrow ++ (s ++ target)), s' ++ '"' :: (label ++ '"' :: (s'' ++ e)), ?_⟩
        simp [Text.of]
      obtain rfl := beq_iff_eq.mp hpair
      simp at hl

theorem fixExcessiveBrackets_eq (h : Spelled l) : fixExcessiveBrackets l = l := by
  obtain ⟨t, hopens, hcloses⟩ := fixExcessiveBrackets_edits l
  obtain rfl : t = l := by
    refine hopens.eq_of_forall fun s u r v hl he ↦ ?_
    cases he with
    | @mk brackets _ hbrackets =>
      cases brackets with
      | nil => rfl
      | cons c brackets =>
        obtain rfl := hbrackets c (by simp)
        refine absurd ?_ (h.no_pair (c := '[') (d := '[') (by decide))
        exact ⟨s, brackets ++ '"' :: r, by simp [hl, Text.of]⟩
  refine hcloses.eq_of_forall fun s u r v hl he ↦ ?_
  cases he with
  | @mk brackets _ hbrackets =>
    cases brackets with
    | nil => rfl
    | cons c brackets =>
      obtain rfl := hbrackets c (by simp)
      refine absurd ?_ (h.no_pair (c := ']') (d := ']') (by decide))
      exact ⟨s ++ ['"'], brackets ++ r, by simp [hl, Text.of]⟩

theorem collapseDuplicateLabels_eq (h : Spelled l) : collapseDuplicateLabels l = l := by
  refine (collapseDuplicateLabels_edits l).eq_of_forall fun s u r v hl he ↦ ?_
  cases he with
  | @mk id labels label _ _ hne hlabels hlabel =>
    obtain ⟨labels, first, rfl⟩ := (List.eq_nil_or_concat labels).resolve_left hne
    obtain ⟨x, rfl, -⟩ := hlabels first (by simp)
    obtain ⟨y, rfl, -⟩ := hlabel
    refine absurd ?_ (h.no_pair (c := ']') (d := '[') (by decide))
    exact ⟨s ++ (id ++ (labels.flatten ++ '[' :: '"' :: (x ++ ['"']))),
      '"' :: (y ++ '"' :: ']' :: r), by simp [hl, Text.of]⟩

/-- A bracket is always followed by a quote, and no unquoted label starts with one. -/
theorem Spelled.quote_after_bracket (h : Spelled t) {p x : Text} (ht : t = p ++ '[' :: x)
    (hx : x ≠ []) : ∃ x', x = '"' :: x' := by
  obtain ⟨c, x, rfl⟩ := List.exists_cons_of_ne_nil hx
  have hpair : mayFollow '[' c := h.pair ⟨p, x, by simp [ht]⟩
  exact ⟨x, by rw [beq_iff_eq.mp hpair]⟩

theorem quoteUnsafeNodeLabels_eq (h : Spelled l) : quoteUnsafeNodeLabels l = l := by
  refine replaceAll_eq_self (by decide) (by decide) fun s u r gs hl htakes ↦ ?_
  simp only [unquotedLabelPattern, many, takes_append_notAhead, takes_append_sign,
    takes_append_group, takes_star_noneOf, existsAndEq, true_and, and_assoc, List.append_assoc,
    List.nil_append] at htakes
  obtain ⟨-, content, v, id, g, g', hu, -, -, hahead, -⟩ := htakes
  refine hahead ?_
  obtain ⟨x, hx⟩ := h.quote_after_bracket (p := s ++ (v ++ id)) (x := content ++ ']' :: r)
    (by simp [hl, hu]) (by simp)
  exact ⟨['"'], x, [], by simpa using hx, '"', by decide, rfl, rfl⟩

theorem mergeHashComment_eq (h : Spelled l) : Line.mergeHashComment l = l := by
  rw [Line.mergeHashComment]
  split
  · rfl
  · rename_i m hm
    obtain ⟨⟨gs, htakes, -⟩, -, hl⟩ := of_match? (by decide) hm
    simp only [Line.hashCommentPattern, many, takes_append_lastLineEnd, takes_append_group,
      takes_star_any, takes_append_sign, existsAndEq, true_and, and_assoc,
      List.append_assoc] at htakes
    obtain ⟨-, comment, g, v, hu, -⟩ := htakes
    have hmem : '#' ∈ l := by simp [hl, hu]
    exact absurd hmem (h.not_mem (by decide))

theorem closeBeforeTerminator_eq (h : ¬ ['"', ';'] <:+: l) : Line.closeBeforeTerminator l = l := by
  fun_induction Line.closeBeforeTerminator l with
  | case1 t _ => exact absurd ⟨['['], t, rfl⟩ h
  | case2 c t _ ih => rw [ih fun hpair ↦ h (hpair.trans (List.suffix_cons c t).isInfix)]
  | case3 => rfl

theorem cleanLabelTail_eq (h : Spelled l) : Line.cleanLabelTail l = l := by
  rw [Line.cleanLabelTail, closeBeforeTerminator_eq (h.no_pair (by decide)), Line.closeAtEnd]
  split
  · rename_i hend
    obtain ⟨p, rfl⟩ := List.isSuffixOf_iff_suffix.mp hend
    have hlast : mayFollow '"' '\n' := h.last (p := p ++ ['[']) (by simp)
    exact absurd hlast (by decide)
  · rfl

theorem fixBrokenEdgeLabels_eq (h : Spelled l) : Line.fixBrokenEdgeLabels l = l := by
  refine replaceAll_eq_self (by decide) (by decide) fun s u r gs hl htakes ↦ ?_
  simp only [Line.brokenEdgeLabelPattern, takes_append_sign, takes_append_blanks,
    takes_append_group, takes_sign, existsAndEq, true_and, List.append_assoc] at htakes
  obtain ⟨s', label, g, x, hu, -, -, -, hx, -⟩ := htakes
  by_cases hnil : x = []
  · have hpair : ['-', '['] <:+: l := ⟨s ++ ['-'],
      '"' :: (label ++ '[' :: '"' :: (s' ++ '-' :: '-' :: '>' :: r)), by simp [hl, hu, hnil]⟩
    exact h.no_pair (by decide) hpair
  · have hbefore := h.not_after_blanks (q := s ++ ['-', '-']) (d := '[')
      (r := '"' :: (label ++ '[' :: '"' :: (s' ++ '-' :: '-' :: '>' :: r))) (by simp [hl, hu]) hx
      (.inr hnil)
    exact absurd hbefore (by decide)

theorem quoteNestedBracketLabels_eq (h : Spelled l) : Line.quoteNestedBracketLabels l = l := by
  refine replaceAll_eq_self (by decide) (by decide) fun s u r gs hl htakes ↦ ?_
  simp only [Line.nestedLabelPattern, takes_append_sign, takes_append_group,
    takes_append_notAhead, takes_append_blanks, takes_group, existsAndEq, true_and,
    List.append_assoc] at htakes
  obtain ⟨content, g', id, x, g, hu, -, -, hahead, -⟩ := htakes
  refine hahead ?_
  obtain ⟨y, hy⟩ := h.quote_after_bracket (p := s ++ (id ++ x)) (x := content ++ ']' :: r)
    (by simp [hl, hu]) (by simp)
  exact ⟨['"'], y, [], by simpa using hy, '"', by decide, rfl, rfl⟩

theorem stripRegion_eq {x : Text} (hx : ∀ c ∈ x, isSign c) :
    Line.stripRegion ('[' :: (x ++ [']'])) = '[' :: (x ++ [']']) := by
  have hkeep : x.filter (fun c ↦ !among "()\x7b\x7d" c) = x := by
    have hno : ∀ d ∈ "()\x7b\x7d".toList, isSign d = false := by decide
    rw [List.filter_eq_self]
    intro c hc
    rw [Bool.not_eq_true', among_eq_false]
    intro hmem
    have hsign := hx c hc
    simp [hno c hmem] at hsign
  simp [Line.stripRegion, hkeep]

theorem stripStretches_eq {ss : List Stretch} (h : Cuts .square l ss) (hl : ∀ c ∈ l, isSign c)
    (prev : Option Char) : Line.stripStretches prev ss = l := by
  induction h generalizing prev with
  | nil => rfl
  | outside _ _ ih =>
    rw [Line.stripStretches, ih (fun c hc ↦ hl c (by simp [hc]))]
  | @region o c x r ss _ ho hc _ ih =>
    obtain rfl := Brackets.square_opens.mp ho
    obtain rfl := Brackets.square_closes.mp hc
    rw [Line.stripStretches, ih (fun d hd ↦ hl d (by simp [hd])),
      stripRegion_eq fun d hd ↦ hl d (by simp [hd]), ite_self]
    simp

theorem stripLabelDecorations_eq (h : Spelled l) : Line.stripLabelDecorations l = l :=
  stripStretches_eq (cuts_ofText .square l) (fun _ hc ↦ h.isSign hc) none

end DiagramRepair.Flowchart
