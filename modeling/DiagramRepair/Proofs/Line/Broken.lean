import DiagramRepair.Proofs.Line.Bars
import DiagramRepair.Proofs.Line.Quote

namespace DiagramRepair.Line

open Pattern Rule

variable {b k r s s' t tail u v x z z' : Text} {c : Char} {p : Part} {ps : List Part}

def straightenLabel (m : Match) : Text := Text.of "-- \"" ++ m.group "label" ++ Text.of "\" -->"

def DashLabel (t : Text) : Prop := ∃ s r, t = '-' :: '-' :: (s ++ '[' :: '"' :: r) ∧ Blank s

theorem takes_brokenEdgeLabelPattern {gs : Groups} : brokenEdgeLabelPattern.Takes b u r gs ↔
    ∃ s x s', u = '-' :: '-' :: (s ++ '[' :: '"' :: (x ++ '[' :: '"' :: (s' ++ Text.of "-->"))) ∧
      Blank s ∧ (x ≠ [] ∧ '\n' ∉ x) ∧ Blank s' ∧ gs = [("label", x)] := by
  simp only [brokenEdgeLabelPattern, takes_append_sign, takes_append_blanks, takes_append_group,
    takes_many1Lazy_any, takes_sign, existsAndEq, true_and, and_true, and_assoc, List.append_assoc]
  constructor
  · rintro ⟨s', x, s, rfl, hs', rfl, hne, hx, hs⟩
    exact ⟨s, x, s', rfl, hs, hne, hx, hs', rfl⟩
  · rintro ⟨s, x, s', rfl, hs, hne, hx, hs', rfl⟩
    exact ⟨s', x, s, rfl, hs', rfl, hne, hx, hs⟩

theorem free_of_not_dashLabel (h : ¬ DashLabel t) : brokenEdgeLabelPattern.Free b t := by
  rintro u r gs rfl htakes
  obtain ⟨s, x, s', rfl, hs, -⟩ := takes_brokenEdgeLabelPattern.mp htakes
  exact h ⟨s, x ++ '[' :: '"' :: (s' ++ (Text.of "-->" ++ r)), by simp, hs⟩

theorem EndsDashes.of_append (hc : isArrowChar c = false) (h : EndsDashes (k ++ c :: u)) :
    EndsDashes u := by
  obtain ⟨k', s, heq, hs⟩ := h
  have hnot : c ∉ Text.of "--" ++ s := by
    intro hmem
    rcases List.mem_append.mp hmem with h | h
    · have hdash : ∀ c ∈ Text.of "--", isArrowChar c := by decide
      simp [hdash c h] at hc
    · simp [isArrowChar, hs c h] at hc
  obtain ⟨k'', -, rfl⟩ := Text.exists_of_not_mem_right hnot heq.symm
  exact ⟨k'', s, rfl, hs⟩

theorem EndsDashes.of_blank_append (hs : Blank s) (h : EndsDashes (s ++ u)) : EndsDashes u := by
  induction s with
  | nil => exact h
  | cons c s ih =>
    obtain ⟨hc, hs⟩ := List.forall_mem_cons.mp hs
    refine ih hs ?_
    obtain ⟨k', s', heq, hs'⟩ := h
    cases k' with
    | nil =>
      obtain rfl := (List.cons.inj heq).1
      exact absurd hc (by decide)
    | cons d k' => exact ⟨k', s', (List.cons.inj heq).2, hs'⟩

theorem DashLabel.endsDashes (hv : '[' ∉ v) (h : DashLabel (v ++ '[' :: t)) :
    EndsDashes v ∧ ∃ r, t = '"' :: r := by
  obtain ⟨s, r, heq, hs⟩ := h
  have hdash : '[' ∉ '-' :: '-' :: s := by simp [not_open_of_blank hs]
  obtain ⟨rfl, ht⟩ := Text.append_cons_inj (q := '-' :: '-' :: s) hv hdash (by simpa using heq)
  exact ⟨⟨[], s, rfl, hs⟩, r, ht⟩

theorem not_dashLabel_of_not_mem (hv : '[' ∉ v) : ¬ DashLabel v := by
  rintro ⟨s, r, rfl, -⟩
  simp at hv

/-- A text without a bracket stays before the next bracket, unless dashes end it and that one opens
a quoted label. -/
theorem replaceFrom_before_bracket (hu : '[' ∉ u) (h : ∀ r, t = '"' :: r → ¬ EndsDashes u)
    (b : Text) :
    brokenEdgeLabelPattern.replaceFrom straightenLabel b (u ++ '[' :: t) =
      u ++ '[' :: brokenEdgeLabelPattern.replaceFrom straightenLabel ('[' :: (u.reverse ++ b)) t := by
  rw [replaceFrom_append_of_free (by decide), replaceFrom_of_free (by decide)]
  · refine free_of_not_dashLabel ?_
    rintro ⟨s, r, heq, -⟩
    simp at heq
  · rintro s v rfl hv
    refine free_of_not_dashLabel fun hdash ↦ ?_
    obtain ⟨hends, r, rfl⟩ := hdash.endsDashes fun hmem ↦ hu (by simp [hmem])
    obtain ⟨k', s', rfl, hs'⟩ := hends
    exact h r rfl ⟨s ++ k', s', by simp, hs'⟩

def labelOpening : Pattern := sign "--" ++ blanks ++ sign "[\""

def labelClosing : Pattern := sign "[\"" ++ blanks ++ sign "-->"

theorem takes_labelOpening {gs : Groups} : labelOpening.Takes b u r gs ↔
    (∃ s, u = '-' :: '-' :: (s ++ ['[', '"']) ∧ Blank s) ∧ gs = [] := by
  simp only [labelOpening, takes_append_sign, takes_append_blanks, takes_sign, existsAndEq,
    true_and]
  constructor
  · rintro ⟨s, rfl, hs, rfl⟩
    exact ⟨⟨s, rfl, hs⟩, rfl⟩
  · rintro ⟨⟨s, rfl, hs⟩, rfl⟩
    exact ⟨s, rfl, hs, rfl⟩

theorem takes_labelClosing {gs : Groups} : labelClosing.Takes b u r gs ↔
    (∃ s, u = '[' :: '"' :: (s ++ Text.of "-->") ∧ Blank s) ∧ gs = [] := by
  simp only [labelClosing, takes_append_sign, takes_append_blanks, takes_sign, existsAndEq,
    true_and]
  constructor
  · rintro ⟨s, rfl, hs, rfl⟩
    exact ⟨⟨s, rfl, hs⟩, rfl⟩
  · rintro ⟨⟨s, rfl, hs⟩, rfl⟩
    exact ⟨s, rfl, hs, rfl⟩

theorem run_brokenEdgeLabelPattern {α : Type} (pl : Place) (k : Place → Option α) :
    brokenEdgeLabelPattern.run pl k = labelOpening.run pl fun s ↦ any.run s fun s₁ ↦
      (manyLazy any).run s₁ fun s₂ ↦
        labelClosing.run ⟨s₂.before, s₂.after, ("label", s.after, s₂.after) :: s₂.captures⟩ k :=
  rfl

theorem run_labelOpening {α : Type} {cs : List (String × Text × Text)} (k : Place → Option α)
    (hs : Blank s) (b t : Text) :
    labelOpening.run ⟨b, '-' :: '-' :: (s ++ ['[', '"']) ++ t, cs⟩ k =
      k ⟨('-' :: '-' :: (s ++ ['[', '"'])).reverse ++ b, t, cs⟩ := by
  have htakes : labelOpening.Takes b ('-' :: '-' :: (s ++ ['[', '"'])) t [] :=
    takes_labelOpening.mpr ⟨⟨s, rfl, hs⟩, rfl⟩
  refine run_of_unique (by decide) (by decide) rfl htakes fun u' r' h htakes' ↦ ?_
  obtain ⟨⟨s', rfl, hs'⟩, -⟩ := takes_labelOpening.mp htakes'
  obtain ⟨rfl, -⟩ :=
    Text.append_cons_inj (not_open_of_blank hs) (not_open_of_blank hs') (by simpa using h)
  rfl

theorem run_labelClosing {α : Type} (cs : List (String × Text × Text)) (k : Place → Option α)
    (hs : Blank s) (b t : Text) :
    labelClosing.run ⟨b, '[' :: '"' :: (s ++ Text.of "-->") ++ t, cs⟩ k =
      k ⟨('[' :: '"' :: (s ++ Text.of "-->")).reverse ++ b, t, cs⟩ := by
  have htakes : labelClosing.Takes b ('[' :: '"' :: (s ++ Text.of "-->")) t [] :=
    takes_labelClosing.mpr ⟨⟨s, rfl, hs⟩, rfl⟩
  refine run_of_unique (by decide) (by decide) rfl htakes fun u' r' h htakes' ↦ ?_
  obtain ⟨⟨s', rfl, hs'⟩, -⟩ := takes_labelClosing.mp htakes'
  obtain ⟨rfl, -⟩ :=
    Text.append_cons_inj (not_dash_of_blank hs) (not_dash_of_blank hs') (by simpa [Text.of] using h)
  rfl

theorem free_labelClosing (hx : '"' ∉ x) (hne : x ≠ []) : labelClosing.Free b (x ++ '[' :: t) := by
  intro u r gs heq htakes
  obtain ⟨⟨s, rfl, -⟩, -⟩ := takes_labelClosing.mp htakes
  match x, hne with
  | [c], _ => simp at heq
  | c :: d :: x, _ =>
    obtain ⟨-, heq⟩ := List.cons.inj heq
    obtain ⟨rfl, -⟩ := List.cons.inj heq
    simp at hx

/-- The label goes to the next bracket with a quote, as none of its quotes is behind a bracket. -/
theorem exists_match_of_broken (hx : '"' ∉ x) (hne : x ≠ []) (hline : '\n' ∉ x) (hs : Blank s)
    (hs' : Blank s') (b r : Text) :
    ∃ m, brokenEdgeLabelPattern.matchAt? b
        ((Mark.broken s x s').text ++ (Text.of "-->" ++ r)) = some m ∧
      m.whole = (Mark.broken s x s').text ++ Text.of "-->" ∧
      straightenLabel m = (Mark.edge x).text ++ Text.of "-->" := by
  obtain ⟨c, y, rfl⟩ := List.exists_cons_of_ne_nil hne
  rw [List.mem_cons, not_or] at hx hline
  let rest := '[' :: '"' :: (s' ++ Text.of "-->") ++ r
  have htext : (Mark.broken s (c :: y) s').text ++ (Text.of "-->" ++ r) =
      '-' :: '-' :: (s ++ ['[', '"']) ++ (c :: y ++ rest) := by simp [Mark.text, rest]
  refine ⟨⟨b, (Mark.broken s (c :: y) s').text ++ Text.of "-->", r,
    [("label", c :: y ++ rest, rest)]⟩, ?_, rfl, ?_⟩
  · rw [htext, matchAt?, run_brokenEdgeLabelPattern, run_labelOpening _ hs]
    have hany : ∀ {α : Type} {b : Text} (k : Place → Option α),
        any.run ⟨b, c :: y ++ rest, []⟩ k = k ⟨c :: b, y ++ rest, []⟩ := by
      intro α b k
      simp [any, run, Ne.symm hline.1]
    rw [hany]
    refine run_manyLazy_one rfl (fun d hd ↦ ?_) (fun v w hvw hw ↦ ?_) ?_
    · exact bne_iff_ne.mpr fun h ↦ hline.2 (h ▸ hd)
    · have hquote : '"' ∉ w := fun hmem ↦ hx.2 (by simp [hvw, hmem])
      exact run_eq_none (by decide) (free_labelClosing hquote hw)
    · have hclosing := run_labelClosing [("label", c :: y ++ rest, rest)]
        (fun pl ↦ some (Match.mk b
          (('-' :: '-' :: (s ++ ['[', '"']) ++ (c :: y ++ rest)).take
            (('-' :: '-' :: (s ++ ['[', '"']) ++ (c :: y ++ rest)).length - pl.after.length))
          pl.after pl.captures)) hs'
        (y.reverse ++ c :: (('-' :: '-' :: (s ++ ['[', '"'])).reverse ++ b)) r
      refine hclosing.trans ?_
      have hwhole : '-' :: '-' :: (s ++ ['[', '"']) ++ (c :: y ++ rest) =
          (Mark.broken s (c :: y) s').text ++ Text.of "-->" ++ r := by simp [Mark.text, rest]
      simp only [hwhole, List.length_append, Nat.add_sub_cancel, List.take_left']
  · have hlength : (c :: y ++ rest).length - rest.length = (c :: y).length := by
      rw [List.length_append, Nat.add_sub_cancel]
    simp only [straightenLabel, Match.group, Match.group?, List.lookup_cons_self, Option.map_some,
      Option.getD_some, hlength, List.take_left]
    simp [Mark.text, Text.of]

/-- Behind any text without a bracket the search makes `z'` of `z`. -/
abbrev Keeps (z z' : Text) : Prop :=
  brokenEdgeLabelPattern.ReplacesBehind straightenLabel '[' z z'

theorem Keeps.bracket (hz : z.head? ≠ some '"') (h : Keeps z z') :
    Keeps ('[' :: z) ('[' :: z') := by
  intro u b hu
  have hrest := h [] ('[' :: (u.reverse ++ b)) (by simp)
  rw [List.nil_append] at hrest
  rw [replaceFrom_before_bracket hu (by rintro r rfl; simp at hz), hrest, List.nil_append]

theorem Keeps.boxed (hx : Boxed x) (h : Keeps z z') : Keeps (x ++ z) (x ++ z') := by
  induction hx with
  | nil => exact h
  | @plain c x hc _ ih => exact ih.append (u := [c]) (by simpa using hc.1.symm)
  | @group y x hy _ ih =>
    have hnot := not_mem_of_group hy
    have hinside := (ih.append (u := [']']) (by decide)).append (hnot '[' (by decide))
    have hhead : (y ++ ([']'] ++ (x ++ z))).head? ≠ some '"' := by
      cases y with
      | nil => simp
      | cons c y =>
        rintro ⟨⟩
        exact hnot '"' (by decide) (by simp)
    simpa using Keeps.bracket hhead hinside

def IsOff (u : Text) : Prop := u = [] ∨ EndsOffArrow u

theorem IsOff.endsDashes (hu : IsOff u) (h : EndsDashes (u ++ k)) : EndsDashes k := by
  rcases hu with rfl | ⟨w, c, s, rfl, hc, hs⟩
  · exact h
  · rw [List.append_assoc, List.cons_append] at h
    exact (h.of_append hc).of_blank_append hs

def KeepsOff (z z' : Text) : Prop := ∀ u b, '[' ∉ u → IsOff u →
  brokenEdgeLabelPattern.replaceFrom straightenLabel b (u ++ z) = u ++ z'

theorem KeepsOff.append (hv : '[' ∉ v) (hend : EndsOffArrow v) (h : KeepsOff z z') :
    Keeps (v ++ z) (v ++ z') := by
  intro u b hu
  obtain ⟨w, c, s, rfl, hc, hs⟩ := hend
  have hrest := h (u ++ (w ++ c :: s)) b (fun hmem ↦ (List.mem_append.mp hmem).elim hu hv)
    (.inr ⟨u ++ w, c, s, by simp, hc, hs⟩)
  simpa using hrest

theorem endsOffArrow_concat (u : Text) (hc : isArrowChar c = false) : EndsOffArrow (u ++ [c]) :=
  ⟨u, c, [], rfl, hc, List.forall_mem_nil _⟩

theorem KeepsOff.around {w : Text} (hv : '[' ∉ v) (hx : Boxed x) (hw : '[' ∉ w)
    (hend : EndsOffArrow w) (h : KeepsOff z z') :
    Keeps (v ++ (x ++ (w ++ z))) (v ++ (x ++ (w ++ z'))) :=
  (Keeps.boxed hx (h.append hw hend)).append hv

theorem Keeps.run (hk : '[' ∉ k) (h : Keeps z z') : KeepsOff (k ++ z) (k ++ z') :=
  fun u b hu _ ↦ (h.append hk) u b hu

/-- A quoted label stays behind a run that no dashes end, as they would open it. -/
theorem KeepsOff.quoted (hk : '[' ∉ k) (hdashes : ¬ EndsDashes k) (hx : Boxed x)
    (h : KeepsOff z z') :
    KeepsOff (k ++ ((Mark.quoted x).text ++ z)) (k ++ ((Mark.quoted x).text ++ z')) := by
  intro u b hu hoff
  have hends : EndsOffArrow ['"', ']'] := endsOffArrow_concat ['"'] (by decide)
  have hinside := h.around (v := ['"']) (w := ['"', ']']) (by decide) hx (by decide) hends []
    ('[' :: ((u ++ k).reverse ++ b)) (by simp)
  have hopen : '[' ∉ u ++ k := fun hmem ↦ (List.mem_append.mp hmem).elim hu hk
  have hlabel := replaceFrom_before_bracket (t := '"' :: (x ++ (['"', ']'] ++ z))) hopen
    (fun _ _ h ↦ hdashes (hoff.endsDashes h)) b
  simp only [List.nil_append, List.singleton_append] at hinside
  rw [hinside] at hlabel
  simpa [Mark.text] using hlabel

/-- A mark that is not broken stays as it is. -/
theorem KeepsOff.text {m : Mark} (hk : '[' ∉ k) (hm : m.Fits k) (hbroken : ¬ m.IsBroken)
    (hdangling : ¬ m.IsDangling) (h : KeepsOff z z') :
    KeepsOff (k ++ (m.text ++ z)) (k ++ (m.text ++ z')) := by
  have hends : ∀ u c, isArrowChar c = false → EndsOffArrow (u ++ [c]) :=
    fun u c ↦ endsOffArrow_concat u
  cases m with
  | label x =>
    have hhead : x.head? ≠ some '"' := head?_ne_of_filter (by decide) hm.unquoted
    have hinside := h.around (v := []) (w := [']']) (by simp) hm.boxed (by decide)
      (hends [] ']' (by decide))
    have hlabel := hinside.bracket (by cases x <;> simp_all)
    simpa [Mark.text] using hlabel.run hk
  | quoted x => exact h.quoted hk hm.2 hm.1.boxed
  | standing x =>
    have htext := h.around (v := ['"']) (w := ['"']) (by decide) hm.1.boxed (by decide)
      (hends [] '"' (by decide))
    simpa [Mark.text] using htext.run hk
  | bar x =>
    have htext := h.around (v := ['|']) (w := ['|']) (by decide) hm.1.boxed (by decide)
      (hends [] '|' (by decide))
    simpa [Mark.text] using htext.run hk
  | quotedBar x =>
    have htext := h.around (v := ['|', '"']) (w := ['"', '|']) (by decide) hm.boxed (by decide)
      (hends ['"'] '|' (by decide))
    simpa [Mark.text] using htext.run hk
  | dangling x => exact absurd trivial hdangling
  | broken s x s' => exact absurd trivial hbroken
  | edge x =>
    have htext := h.around (v := ['-', '-', ' ', '"']) (w := ['"', ' ']) (by decide) hm.boxed
      (by decide) ⟨[], '"', [' '], rfl, by decide, by decide⟩
    simpa [Mark.text] using htext.run hk

theorem not_dashLabel_arrow {r : Text} (h : Text.of "-->" = u ++ v) (hv : v ≠ []) :
    ¬ DashLabel (v ++ r) := by
  rintro ⟨s, w, heq, hs⟩
  have hcases : v = ['-', '-', '>'] ∨ v = ['-', '>'] ∨ v = ['>'] := by
    have hsuffix : ∀ n, n < 3 → (Text.of "-->").drop n = ['-', '-', '>'] ∨
        (Text.of "-->").drop n = ['-', '>'] ∨ (Text.of "-->").drop n = ['>'] := by decide
    have hlength : u.length < 3 := by
      have := List.length_pos_iff.mpr hv
      have := congrArg List.length h
      simp only [Text.of, String.toList, List.length_append] at this
      change 3 = _ at this
      omega
    simpa [h] using hsuffix u.length hlength
  rcases hcases with rfl | rfl | rfl
  · cases s with
    | nil => simp at heq
    | cons c s =>
      obtain rfl : '>' = c := (List.cons.inj (List.cons.inj (List.cons.inj heq).2).2).1
      exact absurd (hs '>' (by simp)) (by decide)
  · simp at heq
  · simp at heq

theorem not_dashLabel_dashes (hs : Blank s) (hv : v ≠ []) (hopen : '[' ∉ v) :
    ¬ DashLabel (v ++ '-' :: '-' :: (s ++ '[' :: t)) := by
  rintro ⟨s', r, heq, hs'⟩
  have hsplit : v ++ '-' :: '-' :: s ++ '[' :: t = '-' :: '-' :: s' ++ '[' :: '"' :: r := by
    simpa using heq
  have hleft : '[' ∉ v ++ '-' :: '-' :: s := by simp [hopen, not_open_of_blank hs]
  have hright : '[' ∉ '-' :: '-' :: s' := by simp [not_open_of_blank hs']
  obtain ⟨hdashes, -⟩ := Text.append_cons_inj hleft hright hsplit
  have hmem : '-' ∈ s' := by
    match v, hdashes with
    | [], _ => exact absurd rfl hv
    | [_], h =>
      rw [← (List.cons.inj (List.cons.inj h).2).2]
      simp
    | _ :: _ :: v, h =>
      rw [← (List.cons.inj (List.cons.inj h).2).2]
      exact List.mem_append_right v (by simp)
  exact not_dash_of_blank hs' hmem

/-- No match starts in an arrow, so the search does the same behind it. -/
theorem KeepsOff.behind_arrow {r r' : Text} (h : KeepsOff (Text.of "-->" ++ r) (Text.of "-->" ++ r'))
    (b : Text) :
    brokenEdgeLabelPattern.replaceFrom straightenLabel ((Text.of "-->").reverse ++ b) r = r' := by
  have harrow := replaceFrom_append_of_free (p := brokenEdgeLabelPattern) (f := straightenLabel)
    (b := b) (u := Text.of "-->") (r := r) (by decide) fun s₁ v hsplit hv ↦
      free_of_not_dashLabel (not_dashLabel_arrow hsplit hv)
  have hrest := h [] b (by simp) (.inl rfl)
  rw [List.nil_append, harrow, List.nil_append] at hrest
  exact List.append_cancel_left hrest

theorem replaceFrom_broken {r r' : Text} (hm : (Mark.broken s x s').Fits k)
    (h : KeepsOff (Text.of "-->" ++ r) (Text.of "-->" ++ r')) (b : Text) :
    brokenEdgeLabelPattern.replaceFrom straightenLabel b
        ((Mark.broken s x s').text ++ (Text.of "-->" ++ r)) =
      (Mark.edge x).text ++ (Text.of "-->" ++ r') := by
  obtain ⟨hx, hne, hline, -, hs, hs'⟩ := hm
  obtain ⟨m, hm, hwhole, hedge⟩ := exists_match_of_broken hx.unquoted hne hline hs hs' b r
  rw [← List.append_assoc] at hm
  have hmatch := replaceFrom_of_matchAt? (f := straightenLabel) hm hwhole (by simp [Text.of])
  have hcontext : ((Mark.broken s x s').text ++ Text.of "-->").reverse ++ b =
      (Text.of "-->").reverse ++ ((Mark.broken s x s').text.reverse ++ b) := by
    rw [List.reverse_append, List.append_assoc]
  rw [hedge, hcontext, h.behind_arrow] at hmatch
  rw [← List.append_assoc, hmatch, List.append_assoc]

/-- A broken label before an arrow becomes the label of the edge. -/
theorem KeepsOff.broken {r r' : Text} (hk : '[' ∉ k) (hm : (Mark.broken s x s').Fits k)
    (h : KeepsOff (Text.of "-->" ++ r) (Text.of "-->" ++ r')) :
    KeepsOff (k ++ ((Mark.broken s x s').text ++ (Text.of "-->" ++ r)))
      (k ++ ((Mark.edge x).text ++ (Text.of "-->" ++ r'))) := by
  have hs : Blank s := hm.2.2.2.2.1
  intro u b hu _
  have hopen : '[' ∉ u ++ k := fun hmem ↦ (List.mem_append.mp hmem).elim hu hk
  have hbefore := replaceFrom_append_of_free (p := brokenEdgeLabelPattern) (f := straightenLabel)
    (b := b) (u := u ++ k) (r := (Mark.broken s x s').text ++ (Text.of "-->" ++ r)) (by decide)
    fun s₁ v hsplit hv ↦ free_of_not_dashLabel (by
      have hv' : '[' ∉ v := fun hmem ↦ hopen (by rw [hsplit]; simp [hmem])
      simpa [Mark.text] using not_dashLabel_dashes hs hv hv'
        (t := '"' :: (x ++ '[' :: '"' :: (s' ++ (Text.of "-->" ++ r)))))
  rw [← List.append_assoc, hbefore, replaceFrom_broken hm h, List.append_assoc]

theorem keepsOff_render (h : Orderly ps tail) (hps : ∀ p ∈ ps, ¬ p.mark.IsDangling) :
    KeepsOff (render ps tail) (render (mapMarks Mark.straightened ps) tail) := by
  induction h with
  | @nil tail htail =>
    intro u b hu _
    have hopen : '[' ∉ u ++ tail := fun hmem ↦
      (List.mem_append.mp hmem).elim hu htail.not_open
    have hnone := replaceFrom_append_of_free (p := brokenEdgeLabelPattern) (f := straightenLabel)
      (b := b) (u := u ++ tail) (r := []) (by decide) fun s₁ v hsplit _ ↦
        free_of_not_dashLabel (not_dashLabel_of_not_mem fun hmem ↦ hopen (by
          rw [hsplit]
          exact List.mem_append_right s₁ (by simpa using hmem)))
    rw [List.append_nil] at hnone
    exact hnone.trans (List.append_nil _)
  | @cons p ps tail hrun hfits hprecedes _ ih =>
    obtain ⟨hdangling, hrest⟩ := List.forall_mem_cons.mp hps
    have hk := hrun.not_open
    by_cases hbroken : p.mark.IsBroken
    · have hprecedes' : p.mark.Precedes (mapMarks Mark.straightened ps) tail :=
        hprecedes.improves (improves_mapMarks Mark.isStep_straightened ps)
      obtain ⟨r, hr⟩ := hprecedes.render_broken hbroken
      obtain ⟨r', hr'⟩ := hprecedes'.render_broken hbroken
      have hedge := ih hrest
      rw [hr, hr'] at hedge
      rw [render, hr]
      cases hmark : p.mark with
      | broken s x s' =>
        rw [hmark] at hfits
        simpa [mapMarks, render, hmark, Mark.straightened, ← hr'] using hedge.broken hk hfits
      | _ => exact absurd hbroken (by simp [hmark, Mark.IsBroken])
    · have hsame : p.mark.straightened p.run = p.mark := by
        cases hmark : p.mark with
        | broken => exact absurd (by simp [hmark, Mark.IsBroken]) hbroken
        | _ => rfl
      have htext := (ih hrest).text hk hfits hbroken hdangling
      simpa [mapMarks, render, hsame] using htext

theorem fixBrokenEdgeLabels_render (h : Orderly ps tail) (hps : ∀ p ∈ ps, ¬ p.mark.IsDangling) :
    fixBrokenEdgeLabels (render ps tail) = render (mapMarks Mark.straightened ps) tail :=
  keepsOff_render h hps [] [] (by simp) (.inl rfl)

end DiagramRepair.Line
