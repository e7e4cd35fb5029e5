import DiagramRepair.Proofs.Line.Mark
import DiagramRepair.Proofs.Pattern.First

namespace DiagramRepair.Line

open Pattern Rule

variable {arrow arrow' b k r s s' t tail u v x : Text} {c : Char} {p : Part} {ps : List Part}

theorem BarsApart.append_cons (hk : BarsApart k) (ht : BarsApart t) (hc : isArrowChar c = false)
    (hbar : c ≠ '|') : BarsApart (k ++ c :: t) := by
  intro u v heq hu
  rcases List.append_eq_append_iff.mp heq with ⟨w, rfl, hw⟩ | ⟨w, rfl, hw⟩
  · cases w with
    | nil => exact hbar (List.cons.inj hw).1
    | cons d w =>
      obtain ⟨rfl, rfl⟩ := List.cons.inj hw
      exact ht w v rfl (hu.of_append hc)
  · cases w with
    | nil => exact hbar (List.cons.inj hw).1.symm
    | cons d w =>
      obtain ⟨rfl, -⟩ := List.cons.inj hw
      exact hk u w rfl hu

theorem BarsApart.append (hk : BarsApart k) (ht : '|' ∉ t) : BarsApart (k ++ t) := by
  rintro u v heq hu
  obtain ⟨w, rfl, -⟩ := Text.exists_of_not_mem_right ht heq
  exact hk u w rfl hu

theorem BarsApart.of_append (h : BarsApart (k ++ t)) : BarsApart t := by
  rintro u v rfl ⟨k', arrow, s, rfl, harrow, hs⟩
  exact h (k ++ (k' ++ (arrow ++ s))) v (by simp) ⟨k ++ k', arrow, s, by simp, harrow, hs⟩

theorem barsApart_singleton (c : Char) : BarsApart [c] := by
  intro u v heq
  cases u with
  | nil => exact not_endsArrow_nil
  | cons d u => simp at heq

def Quiet (t : Text) : Prop := ∀ u v, t = u ++ '|' :: v → EndsArrow u → v.head? = some '"'

theorem BarsApart.quiet (h : BarsApart t) : Quiet t := fun u v ht hu ↦ absurd hu (h u v ht)

theorem quiet_quotedBar (hk : BarsApart k) (ht : BarsApart t) : Quiet (k ++ '|' :: '"' :: t) := by
  intro u v heq hu
  rcases List.append_eq_append_iff.mp heq with ⟨w, rfl, hw⟩ | ⟨w, rfl, hw⟩
  · cases w with
    | nil =>
      rw [← (List.cons.inj hw).2]
      rfl
    | cons d w =>
      obtain ⟨rfl, ht'⟩ := List.cons.inj hw
      have hquoted : BarsApart ('"' :: t) :=
        BarsApart.append_cons (k := []) (barsApart_of_not_mem (by simp)) ht (by decide) (by decide)
      exact absurd (hu.of_append (by decide)) (hquoted w v ht')
  · cases w with
    | nil =>
      rw [(List.cons.inj hw).2]
      rfl
    | cons d w =>
      obtain ⟨rfl, -⟩ := List.cons.inj hw
      exact absurd hu (hk u w rfl)

def quoteBarLabel (m : Match) : Text :=
  m.group "arrow" ++ m.group "gap" ++ ['|', '"'] ++ m.group "label" ++ ['"', '|']

theorem takes_pipeLabelPattern {gs : Groups} : pipeLabelPattern.Takes b u r gs ↔
    ∃ arrow s x, u = arrow ++ (s ++ '|' :: (x ++ ['|'])) ∧ IsArrow arrow ∧ Blank s ∧
      (x ≠ [] ∧ '"' ∉ x ∧ '|' ∉ x) ∧ gs = [("label", x), ("gap", s), ("arrow", arrow)] := by
  have hlabel : ∀ b u r gs, (noneOf "\"|" ++ manyLazy (noneOf "\"|")).Takes b u r gs ↔
      (u ≠ [] ∧ '"' ∉ u ∧ '|' ∉ u) ∧ gs = [] := by
    intro b u r gs
    refine takes_many1Lazy_one.trans (and_congr_left' (and_congr_right' ?_))
    have hclass : ∀ c, (!among "\"|" c) = true ↔ c ≠ '"' ∧ c ≠ '|' := by
      intro c
      rw [Bool.not_eq_true', among_eq_false]
      simp
    simp only [hclass]
    exact ⟨fun h ↦ ⟨fun hm ↦ (h _ hm).1 rfl, fun hm ↦ (h _ hm).2 rfl⟩,
      fun h c hc ↦ ⟨fun he ↦ h.1 (he ▸ hc), fun he ↦ h.2 (he ▸ hc)⟩⟩
  simp only [Line.pipeLabelPattern, takes_append_group, takes_group, ↓takes_arrow,
    takes_append_sign, takes_blanks, ↓hlabel, existsAndEq, and_true, true_and, and_assoc,
    List.append_assoc]
  constructor
  · rintro ⟨x, arrow, s, rfl, rfl, hne, hquote, hbar, hs, harrow⟩
    exact ⟨arrow, s, x, rfl, harrow, hs, hne, hquote, hbar, rfl⟩
  · rintro ⟨arrow, s, x, rfl, harrow, hs, hne, hquote, hbar, rfl⟩
    exact ⟨x, arrow, s, rfl, rfl, hne, hquote, hbar, hs, harrow⟩

theorem isArrow_iff : IsArrow arrow ↔
    arrow ∈ [Text.of "-->", Text.of "---", Text.of "==>", Text.of "-.->"] := by
  simp [IsArrow, IsLineArrow, or_assoc]

theorem isBlank_of_mem_arrow (harrow : IsArrow arrow) (hc : c ∈ arrow) : Text.isBlank c = false := by
  have hsigns : ∀ arrow ∈ [Text.of "-->", Text.of "---", Text.of "==>", Text.of "-.->"],
      ∀ c ∈ arrow, Text.isBlank c = false := by decide
  exact hsigns arrow (isArrow_iff.mp harrow) c hc

theorem arrow_unique (harrow : IsArrow arrow) (harrow' : IsArrow arrow') (hs : Blank s)
    (hs' : Blank s') (h : v ++ (arrow ++ s) = arrow' ++ s') : v = [] ∧ arrow = arrow' ∧ s = s' := by
  have hends : ∀ c ∈ (v ++ arrow).getLast?, Text.isBlank c = false := by
    intro c hc
    have hne : arrow ≠ [] := by
      rintro rfl
      simp [isArrow_iff, Text.of] at harrow
    rw [List.getLast?_append_of_ne_nil _ hne] at hc
    exact isBlank_of_mem_arrow harrow (List.mem_of_getLast? hc)
  have hends' : ∀ c ∈ arrow'.getLast?, Text.isBlank c = false := fun c hc ↦
    isBlank_of_mem_arrow harrow' (List.mem_of_getLast? hc)
  rw [← List.append_assoc] at h
  obtain ⟨hsigns, rfl⟩ := Text.run_unique_right hs hs' hends hends' h
  have hsuffix : ∀ a ∈ [Text.of "-->", Text.of "---", Text.of "==>", Text.of "-.->"],
      ∀ a' ∈ [Text.of "-->", Text.of "---", Text.of "==>", Text.of "-.->"], a <:+ a' → a = a' := by
    decide
  obtain rfl := hsuffix arrow (isArrow_iff.mp harrow) arrow' (isArrow_iff.mp harrow') ⟨v, hsigns⟩
  exact ⟨by simpa using hsigns, rfl, rfl⟩

theorem not_bar_of_isArrow (harrow : IsArrow arrow) (hs : Blank s) : '|' ∉ arrow ++ s :=
  fun h ↦ absurd (isArrowChar_of_mem harrow hs h) (by decide)

def EndsOffArrow (t : Text) : Prop := ∃ w c s, t = w ++ c :: s ∧ isArrowChar c = false ∧ Blank s

/-- No arrow reaches over the end of such a text. -/
theorem EndsOffArrow.ne_arrow {w : Text} (h : EndsOffArrow (s ++ v)) (hv : v ≠ [])
    (harrow : IsArrow arrow) (hs' : Blank s') : arrow ++ s' ≠ v ++ w := by
  intro heq
  obtain ⟨x, c, y, hsplit, hc, hy⟩ := h
  have hnot : c ∉ v := fun hmem ↦ by
    simp [isArrowChar_of_mem harrow hs' (heq ▸ List.mem_append_left w hmem)] at hc
  obtain ⟨q, -, rfl⟩ := Text.exists_of_not_mem_right hnot hsplit
  obtain ⟨d, v, rfl⟩ := List.exists_cons_of_ne_nil hv
  cases arrow with
  | nil => simp [isArrow_iff, Text.of] at harrow
  | cons e arrow =>
    obtain ⟨rfl, -⟩ := List.cons.inj heq
    have hblank := isBlank_of_mem_arrow harrow (c := e) (by simp)
    simp [hy e (by simp)] at hblank

theorem free_of_quiet (hu : Quiet u) (hend : r = [] ∨ EndsOffArrow u) (h : u = s ++ v)
    (hv : v ≠ []) : pipeLabelPattern.Free b (v ++ r) := by
  intro u' r' gs heq htakes
  obtain ⟨arrow, s', x, rfl, harrow, hs', ⟨hne, hquote, -⟩, -⟩ := takes_pipeLabelPattern.mp htakes
  rw [List.append_assoc, List.append_assoc, List.cons_append, ← List.append_assoc arrow] at heq
  rcases List.append_eq_append_iff.mp heq with ⟨w, hw, hr⟩ | ⟨w, hw, hr⟩
  · have hoff := hend.resolve_left (by simp [hr])
    exact (h ▸ hoff).ne_arrow hv harrow hs' hw
  · cases w with
    | nil =>
      have hoff := hend.resolve_left (by rintro rfl; simp at hr)
      exact (h ▸ hoff).ne_arrow (w := []) hv harrow hs' (by simpa using hw.symm)
    | cons d w =>
      obtain ⟨rfl, hr'⟩ := List.cons.inj hr
      have hhead := hu (s ++ (arrow ++ s')) w (by simp [h, hw]) ⟨s, arrow, s', rfl, harrow, hs'⟩
      cases w with
      | nil => simp at hhead
      | cons e w =>
        obtain rfl := Option.some.inj hhead
        cases x with
        | nil => exact hne rfl
        | cons f x =>
          obtain ⟨rfl, -⟩ := List.cons.inj hr'
          simp at hquote

theorem free_of_endsArrow (hv : v ≠ []) (hapart : BarsApart (v ++ (arrow ++ s)))
    (harrow : IsArrow arrow) (hs : Blank s) :
    pipeLabelPattern.Free b (v ++ (arrow ++ (s ++ '|' :: t))) := by
  intro u' r' gs heq htakes
  obtain ⟨arrow', s', x, rfl, harrow', hs', -, -⟩ := takes_pipeLabelPattern.mp htakes
  have hsplit : arrow' ++ s' ++ '|' :: (x ++ ['|'] ++ r') = v ++ (arrow ++ s) ++ '|' :: t := by
    simpa using heq.symm
  rcases Text.first_or_later (not_bar_of_isArrow harrow' hs') hsplit with ⟨h, -⟩ | ⟨q, h, -⟩
  · exact hv (arrow_unique harrow harrow' hs hs' h).1
  · exact hapart _ _ h ⟨[], arrow', s', rfl, harrow', hs'⟩

theorem quoteBarLabel_eq {m : Match} (hm : m.Of pipeLabelPattern) : ∃ arrow s x,
    m.whole = arrow ++ (s ++ '|' :: (x ++ ['|'])) ∧
      quoteBarLabel m = arrow ++ (s ++ '|' :: '"' :: (x ++ ['"', '|'])) ∧
      IsArrow arrow ∧ Blank s ∧ '"' ∉ x ∧ '|' ∉ x := by
  obtain ⟨gs, htakes, hgs⟩ := hm
  obtain ⟨arrow, s, x, hwhole, harrow, hs, ⟨-, hx⟩, rfl⟩ := takes_pipeLabelPattern.mp htakes
  have hgroup : m.group "arrow" = arrow ∧ m.group "gap" = s ∧ m.group "label" = x := by
    simp only [Match.group, hgs]
    exact ⟨rfl, rfl, rfl⟩
  refine ⟨arrow, s, x, hwhole, ?_, harrow, hs, hx⟩
  rw [quoteBarLabel, hgroup.1, hgroup.2.1, hgroup.2.2]
  simp

theorem exists_match_of_bar (harrow : IsArrow arrow) (hs : Blank s)
    (hx : x ≠ [] ∧ '"' ∉ x ∧ '|' ∉ x) (b r : Text) :
    ∃ m, pipeLabelPattern.matchAt? b (arrow ++ (s ++ '|' :: (x ++ ['|'])) ++ r) = some m ∧
      m.whole = arrow ++ (s ++ '|' :: (x ++ ['|'])) ∧
      quoteBarLabel m = arrow ++ (s ++ '|' :: '"' :: (x ++ ['"', '|'])) := by
  have htakes : pipeLabelPattern.Takes b (arrow ++ (s ++ '|' :: (x ++ ['|']))) r _ :=
    takes_pipeLabelPattern.mpr ⟨arrow, s, x, rfl, harrow, hs, hx, rfl⟩
  obtain ⟨m, hm⟩ := Option.isSome_iff_exists.mp (matchAt?_isSome (by decide) htakes)
  obtain ⟨hof, -, htext⟩ := of_matchAt? (by decide) hm
  obtain ⟨arrow', s', x', hwhole, hquoted, harrow', hs', -, hbar'⟩ := quoteBarLabel_eq hof
  have hsplit : arrow ++ s ++ '|' :: (x ++ '|' :: r) =
      arrow' ++ s' ++ '|' :: (x' ++ '|' :: m.after) := by
    simpa [hwhole] using htext
  obtain ⟨hsigns, hlabel⟩ := Text.append_cons_inj (not_bar_of_isArrow harrow hs)
    (not_bar_of_isArrow harrow' hs') hsplit
  obtain ⟨-, rfl, rfl⟩ := arrow_unique (v := []) harrow harrow' hs hs' hsigns
  obtain ⟨rfl, -⟩ := Text.append_cons_inj hx.2.2 hbar' hlabel
  exact ⟨m, hm, hwhole, hquoted⟩

theorem BarsApart.cons (ht : BarsApart t) (hc : isArrowChar c = false) (hbar : c ≠ '|') :
    BarsApart (c :: t) :=
  (barsApart_of_not_mem (x := []) (by simp)).append_cons ht hc hbar

/-- Only a label in bars puts a bar behind an arrow. -/
theorem quiet_part {m : Mark} (hk : BarsApart k) (hm : m.Fits k) (hwhole : m.IsWhole)
    (hbar : m.barQuoted k = m) : Quiet (k ++ m.text) := by
  cases m with
  | label x =>
    have hx : BarsApart (x ++ [']']) := hm.apart.of_bare.append (by simp)
    exact (hk.append_cons hx (by decide) (by decide)).quiet
  | quoted x =>
    have hx : BarsApart (x ++ ['"', ']']) := hm.1.apart.of_undecorated.append (by simp)
    exact (hk.append_cons (hx.cons (by decide) (by decide)) (by decide) (by decide)).quiet
  | standing x =>
    have hx : BarsApart (x ++ ['"']) := hm.1.apart.append (by simp)
    exact (hk.append_cons hx (by decide) (by decide)).quiet
  | bar x => simp [Mark.barQuoted] at hbar
  | quotedBar x =>
    have hx : BarsApart (x ++ ['"', '|']) :=
      hm.apart.append_cons (barsApart_singleton '|') (by decide) (by decide)
    exact quiet_quotedBar hk hx
  | dangling | broken => exact hwhole.elim
  | edge x =>
    have hx : BarsApart (x ++ ['"', ' ']) := hm.apart.append (by simp)
    have hdashes : BarsApart (k ++ ['-', '-', ' ']) := hk.append (by simp)
    have hapart := hdashes.append_cons hx (c := '"') (by decide) (by decide)
    simpa [Mark.text] using hapart.quiet

theorem endsOffArrow_text {m : Mark} (hwhole : m.IsWhole) (k : Text) :
    EndsOffArrow (k ++ m.text) := by
  have hend : ∀ u c, isArrowChar c = false → EndsOffArrow (u ++ [c]) :=
    fun u c hc ↦ ⟨u, c, [], rfl, hc, List.forall_mem_nil _⟩
  cases m with
  | label x => simpa [Mark.text] using hend (k ++ '[' :: x) ']' (by decide)
  | quoted x => simpa [Mark.text] using hend (k ++ '[' :: '"' :: (x ++ ['"'])) ']' (by decide)
  | standing x => simpa [Mark.text] using hend (k ++ '"' :: x) '"' (by decide)
  | bar x => simpa [Mark.text] using hend (k ++ '|' :: x) '|' (by decide)
  | quotedBar x => simpa [Mark.text] using hend (k ++ '|' :: '"' :: (x ++ ['"'])) '|' (by decide)
  | dangling | broken => exact hwhole.elim
  | edge x =>
    exact ⟨k ++ '-' :: '-' :: ' ' :: '"' :: x, '"', [' '], by simp [Mark.text], by decide, by decide⟩

theorem replaceFrom_bar (hk : BarsApart k) (hx : Standing x) (hne : x ≠ []) (hbar : '|' ∉ x)
    (harrow : EndsArrow k) (b r : Text) : ∃ b',
    pipeLabelPattern.replaceFrom quoteBarLabel b (k ++ ((Mark.bar x).text ++ r)) =
      k ++ ((Mark.quotedBar x).text ++ pipeLabelPattern.replaceFrom quoteBarLabel b' r) := by
  obtain ⟨k, arrow, s, rfl, harrow, hs⟩ := harrow
  have hfree := replaceFrom_append_of_free (p := pipeLabelPattern) (f := quoteBarLabel) (b := b)
    (u := k) (r := arrow ++ (s ++ '|' :: (x ++ '|' :: r))) (by decide) fun s' v hk' hv ↦ by
      rw [hk', List.append_assoc] at hk
      exact free_of_endsArrow hv hk.of_append harrow hs
  obtain ⟨m, hm, hwhole, hquoted⟩ := exists_match_of_bar harrow hs ⟨hne, hx.unquoted, hbar⟩
    (k.reverse ++ b) r
  have hmatch := replaceFrom_of_matchAt? (f := quoteBarLabel) hm hwhole (by simp)
  rw [hquoted] at hmatch
  refine ⟨(arrow ++ (s ++ '|' :: (x ++ ['|']))).reverse ++ (k.reverse ++ b), ?_⟩
  simp only [Mark.text, List.append_assoc, List.cons_append, List.nil_append] at hmatch ⊢
  rw [hfree, hmatch]

theorem replaceFrom_render (h : Orderly ps tail) (hps : ∀ p ∈ ps, p.mark.IsWhole) (b : Text) :
    pipeLabelPattern.replaceFrom quoteBarLabel b (render ps tail) =
      render (mapMarks Mark.barQuoted ps) tail := by
  induction h generalizing b with
  | @nil tail htail =>
    have hfree := replaceFrom_append_of_free (p := pipeLabelPattern) (f := quoteBarLabel) (b := b)
      (u := tail) (r := []) (by decide)
      fun s v htail' hv ↦ free_of_quiet htail.apart.quiet (.inl rfl) htail' hv
    rw [List.append_nil] at hfree
    exact hfree.trans (List.append_nil tail)
  | @cons p ps tail hrun hfits _ _ ih =>
    obtain ⟨k, m⟩ := p
    obtain ⟨hwhole, hrest⟩ := List.forall_mem_cons.mp hps
    by_cases hbar : m.barQuoted k = m
    · have hquiet := quiet_part hrun.apart hfits hwhole hbar
      have hfree := replaceFrom_append_of_free (p := pipeLabelPattern) (f := quoteBarLabel) (b := b)
        (r := render ps tail) (by decide)
        fun s v hsplit hv ↦ free_of_quiet hquiet (.inr (endsOffArrow_text hwhole k)) hsplit hv
      rw [ih hrest, List.append_assoc] at hfree
      simpa [render, mapMarks, hbar] using hfree
    · cases m with
      | bar x =>
        obtain ⟨hx, hne, hbar, harrow⟩ := hfits
        obtain ⟨b', hb'⟩ := replaceFrom_bar hrun.apart hx hne hbar harrow b (render ps tail)
        rw [ih hrest] at hb'
        exact hb'
      | label | quoted | standing | quotedBar | dangling | broken | edge => exact absurd rfl hbar

/-- Every label in bars gets its quotes, and nothing else changes. -/
theorem quotePipeLabels_render (h : Orderly ps tail) (hps : ∀ p ∈ ps, p.mark.IsWhole) :
    quotePipeLabels (render ps tail) = render (mapMarks Mark.barQuoted ps) tail :=
  replaceFrom_render h hps []

end DiagramRepair.Line
