import DiagramRepair.Proofs.Flowchart.Arrows

namespace DiagramRepair.Flowchart

open Pattern Rule

variable {a arrow bar l name p q r s t token u v x : Text} {c : Char} {ids : IdSet}

structure Aims (name t q : Text) : Prop where
  ident : IsIdent name
  next : ∀ c ∈ t.head?, c = '[' ∨ c = ';'
  text : q = ' ' :: (name ++ t) ∨
    ∃ x, (∀ c ∈ x, isLabelChar c) ∧ q = '|' :: '"' :: (x ++ '"' :: '|' :: ' ' :: (name ++ t))

theorem Aims.not_isIdentChar (h : Aims name t q) : ∀ c ∈ t.head?, isIdentChar c = false := by
  intro c hc
  rcases h.next c hc with rfl | rfl <;> decide

theorem Aims.unique (h : Aims name t q) (hbar : bar = [] ∨ IsBarLabel bar) (hs : Blank s)
    (htoken : IsIdent token) (hr : ∀ c ∈ r.head?, isIdentChar c = false)
    (hq : q = bar ++ (s ++ (token ++ r))) : token = name ∧ r = t := by
  have hword : ∀ {u : Text}, ' ' :: (name ++ t) = u → u = s ++ (token ++ r) →
      token = name ∧ r = t := by
    intro u hu hu'
    have heq : s ++ (token ++ r) = [' '] ++ (name ++ t) := by rw [← hu', ← hu]; rfl
    exact htoken.unique hs (by decide) h.ident hr h.not_isIdentChar heq
  rcases h.text with htext | ⟨x, hx, htext⟩
  · rcases hbar with rfl | ⟨s', y, rfl, hs', hy⟩
    · exact hword htext.symm hq
    · -- Behind the blanks stands a bar here and the name there.
      have hrun : [' '] ++ (name ++ t) = s' ++ '|' :: (y ++ '|' :: (s ++ (token ++ r))) := by
        simpa [htext] using hq
      obtain ⟨-, hrest⟩ := Text.run_unique (P := Text.isBlank) (by decide) hs'
        (fun _ hc ↦ h.ident.isBlank_head hc) (by rintro c ⟨⟩; decide) hrun
      obtain ⟨d, name, rfl⟩ := List.exists_cons_of_ne_nil h.ident.1
      have hd := h.ident.2 d (by simp)
      obtain ⟨rfl, -⟩ := List.cons.inj hrest
      exact absurd hd (by decide)
  · have hbar' : '|' ∉ '"' :: (x ++ ['"']) := by
      have hx' : '|' ∉ x := not_mem_of_class hx (by decide)
      simp [hx']
    rcases hbar with rfl | ⟨s', y, rfl, hs', hy⟩
    · have hrun : [] ++ '|' :: ('"' :: (x ++ '"' :: '|' :: ' ' :: (name ++ t))) =
          s ++ (token ++ r) := htext ▸ hq
      obtain ⟨-, hrest⟩ := Text.run_unique (P := Text.isBlank) (by simp) hs
        (by rintro c ⟨⟩; decide) (fun _ hc ↦ htoken.isBlank_head hc) hrun
      obtain ⟨d, token, rfl⟩ := List.exists_cons_of_ne_nil htoken.1
      have hd := htoken.2 d (by simp)
      obtain ⟨rfl, -⟩ := List.cons.inj hrest
      exact absurd hd (by decide)
    · have hrun : [] ++ '|' :: ('"' :: (x ++ ['"']) ++ '|' :: ' ' :: (name ++ t)) =
          s' ++ '|' :: (y ++ '|' :: (s ++ (token ++ r))) := by
        simpa [htext] using hq
      obtain ⟨-, hrest⟩ := Text.run_unique (P := Text.isBlank) (by simp) hs'
        (by rintro c ⟨⟩; decide) (by rintro c ⟨⟩; decide) hrun
      rcases Text.first_or_later hbar' (List.cons.inj hrest).2 with ⟨-, htail⟩ | ⟨y', rfl, -⟩
      · exact hword htail rfl
      · simp at hy

def PointsAt (known : List Text) (l : Text) : Prop :=
  '-' ∉ l ∨ ∃ q name t, Arrowed q l ∧ Aims name t q ∧ (t.head? = some '[' ∨ name ∈ known)

theorem PointsAt.forward {known : List Text} (h : PointsAt known l) : Forward l := by
  rcases h with h | ⟨q, name, t, h, -⟩
  · exact .inl h
  · exact .inr ⟨q, h⟩

theorem Arrowed.eq_of_tip (h : Arrowed q l) (hl : l = a ++ (Text.of "-->" ++ r)) : r = q := by
  have hafter : AfterDashes q ('>' :: r) := h.afterDashes (a := a) (by rw [hl]; rfl)
  cases hafter
  rfl

theorem Arrowed.eq_of_isArrow (h : Arrowed q l) (hspelled : Spelled l) (harrow : IsArrow arrow)
    (hl : l = a ++ (arrow ++ r)) : r = q := by
  rcases harrow with (rfl | rfl) | rfl | rfl
  · exact h.eq_of_tip hl
  · have hafter : AfterDashes q ('-' :: r) := h.afterDashes (a := a) (by rw [hl]; rfl)
    cases hafter
  · exact absurd (by simp [hl, Text.of]) (hspelled.not_mem (c := '=') (by decide))
  · have hpair : ['-', '.'] <:+: l := ⟨a, Text.of "->" ++ r, by simp [hl, Text.of]⟩
    exact absurd hpair (hspelled.no_pair (by decide))

theorem Arrowed.eq_of_isLabelledArrow (h : Arrowed q l) (hspelled : Spelled l)
    (harrow : IsLabelledArrow arrow) (hl : l = a ++ (arrow ++ r)) : r = q := by
  rcases harrow with harrow | ⟨s, x, s', rfl, -⟩
  · exact h.eq_of_isArrow hspelled (.inl harrow) hl
  · refine h.eq_of_tip (a := a ++ (Text.of "--" ++ (s ++ (Text.of "\"" ++ (x ++ (Text.of "\"" ++
      s')))))) ?_
    simp [hl]

theorem dash_mem_of_arrow (hspelled : Spelled l) (harrow : IsArrow arrow ∨ IsLabelledArrow arrow)
    (hl : l = a ++ (arrow ++ r)) : '-' ∈ l := by
  rcases harrow with ((rfl | rfl) | rfl | rfl) | (rfl | rfl) | ⟨s, x, s', rfl, -⟩
  case inl.inr.inl => exact absurd (by simp [hl, Text.of]) (hspelled.not_mem (c := '=') (by decide))
  all_goals simp [hl, Text.of]

/-- The word behind an arrow is the target, with its label or with what ends the line. -/
theorem PointsAt.target {known : List Text} (h : PointsAt known l) (hspelled : Spelled l)
    (harrow : IsArrow arrow ∨ IsLabelledArrow arrow) (hbar : bar = [] ∨ IsBarLabel bar)
    (hs : Blank s) (htoken : IsIdent token) (hr : ∀ c ∈ r.head?, isIdentChar c = false)
    (hl : l = a ++ (arrow ++ (bar ++ (s ++ (token ++ r))))) :
    (∀ c ∈ r.head?, c = '[' ∨ c = ';') ∧ (r.head? = some '[' ∨ token ∈ known) := by
  rcases h with h | ⟨q, name, t, harrowed, haims, hknown⟩
  · exact absurd (dash_mem_of_arrow hspelled harrow hl) h
  · have hq : bar ++ (s ++ (token ++ r)) = q :=
      harrow.elim (harrowed.eq_of_isArrow hspelled · hl)
        (harrowed.eq_of_isLabelledArrow hspelled · hl)
    obtain ⟨rfl, rfl⟩ := haims.unique hbar hs htoken hr hq.symm
    exact ⟨haims.next, hknown⟩

theorem wrapMissingBrackets_eq {known : List Text} (hspelled : Spelled l) (h : PointsAt known l) :
    wrapMissingBrackets l = l := by
  refine replaceAll_eq_self (by decide) (by decide) fun a u r gs hl htakes ↦ ?_
  simp only [missingBracketPattern, many1, many, takes_append_group, takes_group, takes_sign,
    takes_many1_noneOf_singleDash (s := "[];\n-") (by decide), ↓takes_append_notAhead_one,
    takes_ident, ↓takes_head (fun _ _ _ _ ↦ takes_labelledArrow), existsAndEq, true_and, and_true,
    and_assoc, List.append_assoc] at htakes
  obtain ⟨content, head, id, hu, -, hne, hcontent, -, hahead, hid, arrow, bar, s, rfl, harrow, hbar,
    hs⟩ := htakes
  obtain ⟨hnext, -⟩ := h.target hspelled (.inr harrow) hbar hs hid hahead (a := a)
    (by simp [hl, hu])
  obtain ⟨c, content, rfl⟩ := List.exists_cons_of_ne_nil hne
  rcases hnext c rfl with rfl | rfl
  · exact hcontent '[' (by decide) (by decide) (by simp)
  · exact hcontent ';' (by decide) (by decide) (by simp)

theorem splitGluedTarget_eq (hspelled : Spelled l) (h : PointsAt ids.defined l) (content : Text) :
    splitGluedTarget ids content l = .ok l := by
  rw [splitGluedTarget]
  split
  · rfl
  · split
    · rfl
    · rename_i m hm
      obtain ⟨⟨gs, htakes, hgs⟩, hline⟩ := of_search? (by decide) hm
      simp only [gluedTargetPattern, manyLazy, takes_append_lastLineEnd, takes_append_group,
        takes_group, ↓takes_terminator, takes_star_noneOf_singleDash (s := "[];-\"&") (by decide),
        ↓takes_append_notAhead_one, takes_ident, ↓takes_head (fun _ _ _ _ ↦ takes_arrowPattern),
        existsAndEq, and_true, true_and, and_assoc, List.append_assoc] at htakes
      obtain ⟨hr, e, rest, head, token, hu, rfl, he, hrest, -, hahead, htoken, arrow, bar, s, rfl,
        harrow, hbar, hs⟩ := htakes
      obtain ⟨-, htarget⟩ := h.target hspelled (.inl harrow) hbar hs htoken hahead
        (a := m.before.reverse) (by simp [hline, hu])
      have hno : '[' ∉ rest ++ (e ++ m.after) := by
        have hrest : '[' ∉ rest := hrest '[' (by decide) (by decide)
        have he : '[' ∉ e := fun hmem ↦ absurd (he.of_mem hmem) (by decide)
        rcases hr with hr | hr <;> simp [hrest, he, hr]
      have hknown : token ∈ ids.defined :=
        htarget.resolve_left fun hlabel ↦ hno (List.mem_of_head? hlabel)
      have htoken' : m.group "token" = token := by
        rw [Match.group, hgs]
        rfl
      have hkeep : splitTarget ids content m = .ok m.whole := by
        simp [splitTarget, htoken', hknown, pure, Except.pure]
      rw [hkeep, hline]
      simp [pure, Except.pure, bind, Except.bind]

end DiagramRepair.Flowchart
