import DiagramRepair.Proofs.Line.Bars

namespace DiagramRepair

open Pattern Line

variable {b r s t t' u w : Text} {c : Char} {gs : Groups} {m : Match}

/-- A stretch without a character lies before a place where the character stands, or behind it. -/
theorem before_or_behind (hu : c ∉ u) (h : s ++ (u ++ r) = w ++ c :: t) :
    (∃ w', w = s ++ (u ++ w')) ∨ ∃ s', s = w ++ c :: s' ∧ s' ++ (u ++ r) = t := by
  rcases List.append_eq_append_iff.mp h with ⟨w', rfl, hw⟩ | ⟨s', rfl, hs⟩
  · obtain ⟨w', rfl, -⟩ := Text.exists_of_not_mem_left hu hw
    exact .inl ⟨w', rfl⟩
  · cases s' with
    | nil =>
      obtain ⟨w', hw, -⟩ := Text.exists_of_not_mem_left (p := []) hu hs.symm
      exact .inl ⟨w', by simp [← hw]⟩
    | cons d s' =>
      obtain ⟨rfl, rfl⟩ := List.cons.inj hs
      exact .inr ⟨s', rfl, rfl⟩

theorem count_bar_of_takes (h : pipeLabelPattern.Takes b u r gs) : 2 ≤ u.count '|' := by
  obtain ⟨arrow, s, x, rfl, -⟩ := takes_pipeLabelPattern.mp h
  simp
  omega

theorem quote_not_mem_of_takes (h : pipeLabelPattern.Takes b u r gs) : '"' ∉ u := by
  obtain ⟨arrow, s, x, rfl, harrow, hs, ⟨-, hx, -⟩, -⟩ := takes_pipeLabelPattern.mp h
  have hsigns : '"' ∉ arrow ++ s := fun hmem ↦
    absurd (isArrowChar_of_mem harrow hs hmem) (by decide)
  simp_all

theorem head_ne_bar_of_takes (h : pipeLabelPattern.Takes b u r gs) : u.head? ≠ some '|' := by
  obtain ⟨arrow, s, x, rfl, harrow, -⟩ := takes_pipeLabelPattern.mp h
  rcases harrow with (rfl | rfl) | rfl | rfl <;> simp [Text.of]

/-- Up to the first quote of the output nothing has changed. -/
theorem Pattern.Replaces.prefix_of_quoteBarLabel
    (h : pipeLabelPattern.Replaces quoteBarLabel b t t') (hu : '"' ∉ u) (ht' : t' = u ++ r) :
    u <+: t := by
  induction h generalizing u with
  | nil => exact ⟨r, ht'.symm⟩
  | plain _ _ ih =>
    cases u with
    | nil => exact List.nil_prefix
    | cons d u =>
      obtain ⟨rfl, hrest⟩ := List.cons.inj ht'
      exact List.cons_prefix_cons.mpr ⟨rfl, ih (fun h ↦ hu (by simp [h])) hrest⟩
  | @found m t' hm _ _ =>
    obtain ⟨arrow, s, x, hwhole, hquoted, -⟩ := quoteBarLabel_eq hm
    have hsplit : u ++ r = (arrow ++ s ++ ['|']) ++ '"' :: (x ++ '"' :: '|' :: t') := by
      simp [← ht', hquoted]
    obtain ⟨w, hw, -⟩ := Text.exists_of_not_mem_left hu hsplit
    have hbefore : arrow ++ s ++ ['|'] <+: m.whole := ⟨x ++ ['|'], by simp [hwhole]⟩
    have hshort : u <+: m.whole := List.IsPrefix.trans ⟨w, hw.symm⟩ hbefore
    exact hshort.trans (List.prefix_append m.whole m.after)

theorem Pattern.Replaces.not_takes_pipeLabelPattern
    (h : pipeLabelPattern.Replaces quoteBarLabel b t t') (ht' : t' = s ++ (u ++ r)) (b' : Text) :
    ¬ pipeLabelPattern.Takes b' u r gs := by
  intro htakes
  have hquote := quote_not_mem_of_takes htakes
  have hcount := count_bar_of_takes htakes
  have hhead := head_ne_bar_of_takes htakes
  induction h generalizing s with
  | nil =>
    obtain ⟨-, hnil⟩ := List.append_eq_nil_iff.mp ht'.symm
    simp [List.append_eq_nil_iff.mp hnil] at hcount
  | @plain b t t' c hfree hrest ih =>
    cases s with
    | cons d s => exact ih (List.cons.inj ht').2
    | nil =>
      -- A match that starts with a kept character would be one of the input.
      obtain ⟨r', hr'⟩ := (hrest.plain hfree).prefix_of_quoteBarLabel hquote ht'
      obtain ⟨arrow, s, x, hbar⟩ := takes_pipeLabelPattern.mp htakes
      exact hfree u r' gs hr'.symm (takes_pipeLabelPattern.mpr ⟨arrow, s, x, hbar⟩)
  | @found m t' hm _ ih =>
    obtain ⟨arrow, s₁, x, -, hquoted, harrow, hs₁, -, hx⟩ := quoteBarLabel_eq hm
    have hsplit : s ++ (u ++ r) = (arrow ++ s₁ ++ ['|']) ++ '"' :: (x ++ '"' :: '|' :: t') := by
      simp [← ht', hquoted]
    rcases before_or_behind hquote hsplit with ⟨w, hw⟩ | ⟨s₂, -, hlabel⟩
    · -- There is only one bar before the label.
      have hzero := List.count_eq_zero.mpr (not_bar_of_isArrow harrow hs₁)
      have hbars := congrArg (List.count '|') hw
      simp only [List.count_append, List.count_singleton_self] at hzero hbars
      omega
    · rcases before_or_behind hquote hlabel with ⟨w, rfl⟩ | ⟨s₃, -, hbar⟩
      · have hzero := List.count_eq_zero.mpr hx
        simp only [List.count_append] at hzero
        omega
      · cases s₃ with
        | nil =>
          obtain ⟨d, u, rfl⟩ := List.exists_cons_of_ne_nil (htakes.ne_nil (by decide))
          obtain ⟨rfl, -⟩ := List.cons.inj hbar
          exact hhead rfl
        | cons d s₃ => exact ih (List.cons.inj hbar).2.symm

theorem not_takes_quotePipeLabels {line : Text} (h : quotePipeLabels line = s ++ (u ++ r)) :
    ¬ pipeLabelPattern.Takes b u r gs := by
  have hreplaces : pipeLabelPattern.Replaces quoteBarLabel [] line (quotePipeLabels line) :=
    replaces_replaceAll (by decide) (by decide) quoteBarLabel line
  exact hreplaces.not_takes_pipeLabelPattern h b

theorem occursIn_pipeLabelPattern_quotePipeLabels (line : Text) :
    pipeLabelPattern.occursIn (quotePipeLabels line) = false := by
  rw [occursIn, Option.isSome_eq_false_iff, Option.isNone_iff_eq_none,
    Option.eq_none_iff_forall_ne_some]
  intro m hm
  obtain ⟨⟨gs, htakes, -⟩, htext⟩ := of_search? (by decide) hm
  exact not_takes_quotePipeLabels htext htakes

theorem quotePipeLabels_quotePipeLabels (line : Text) :
    quotePipeLabels (quotePipeLabels line) = quotePipeLabels line :=
  replaceAll_eq_self (by decide) (by decide) fun _ _ _ _ ht ↦ not_takes_quotePipeLabels ht

theorem quote_not_mem_of_mem_findAll {line : Text} (hm : m ∈ pipeLabelPattern.findAll line) :
    '"' ∉ m.group "label" := by
  obtain ⟨gs, htakes, hgs⟩ := of_mem_findAll (by decide) (by decide) hm
  obtain ⟨arrow, s, x, -, -, -, ⟨-, hx, -⟩, rfl⟩ := takes_pipeLabelPattern.mp htakes
  rw [Match.group, hgs]
  exact hx

end DiagramRepair
