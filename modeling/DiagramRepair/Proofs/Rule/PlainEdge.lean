import DiagramRepair.Proofs.Pattern.First
import DiagramRepair.Proofs.Rule.Note

namespace DiagramRepair.Rule

open Pattern

variable {line line' node note : Text} {m : Match} {p : Pattern}

/-- The parts of a line that is an edge without a label. -/
@[ext]
structure PlainEdge where
  indent : Text
  source : Text
  label : Text
  gap : Text
  arrow : Text
  gap' : Text
  target : Text
  rest : Text
  blank_indent : Blank indent
  isIdent_source : IsIdent source
  label_cases : label = [] ∨ IsSquareLabel label
  blank_gap : Blank gap
  isLineArrow_arrow : IsLineArrow arrow
  blank_gap' : Blank gap'
  isIdent_target : IsIdent target
  rest_stops : ∀ c ∈ rest.head?, isIdentChar c = false

namespace PlainEdge

def text (e : PlainEdge) : Text :=
  e.indent ++ (e.source ++ (e.label ++ (e.gap ++ (e.arrow ++ (e.gap' ++ (e.target ++ e.rest))))))

def labelled (e : PlainEdge) (note : Text) : Text :=
  e.indent ++ (e.source ++ (e.label ++ (Text.of " -- \"" ++ (note ++ (Text.of "\" " ++ (e.arrow ++
    ' ' :: (e.target ++ e.rest)))))))

def touches (e : PlainEdge) (node : Text) : Prop := node = e.source ∨ node = e.target

variable {e e' : PlainEdge} {label label' s a x x' : Text}

theorem head?_gap_arrow (hs : Blank s) (ha : IsLineArrow a) :
    ∀ c ∈ (s ++ (a ++ x)).head?, isIdentChar c = false ∧ c ≠ '[' := by
  cases s with
  | nil =>
    rcases ha with rfl | rfl <;>
    · rintro c ⟨⟩
      decide
  | cons d s =>
    rintro c ⟨⟩
    have hd : Text.isBlank d := hs d (by simp)
    exact ⟨not_isIdentChar_of_isBlank hd, by rintro rfl; exact absurd hd (by decide)⟩

theorem head?_label (hlabel : label = [] ∨ IsSquareLabel label)
    (hx : ∀ c ∈ x.head?, isIdentChar c = false ∧ c ≠ '[') :
    ∀ c ∈ (label ++ x).head?, isIdentChar c = false := by
  rcases hlabel with rfl | ⟨y, rfl, -⟩
  · exact fun c hc ↦ (hx c hc).1
  · rintro c ⟨⟩
    decide

theorem label_append_inj (hlabel : label = [] ∨ IsSquareLabel label)
    (hlabel' : label' = [] ∨ IsSquareLabel label')
    (hx : ∀ c ∈ x.head?, isIdentChar c = false ∧ c ≠ '[')
    (hx' : ∀ c ∈ x'.head?, isIdentChar c = false ∧ c ≠ '[') (h : label ++ x = label' ++ x') :
    label = label' ∧ x = x' := by
  have hbracket : ∀ {x y : Text}, (∀ c ∈ x.head?, isIdentChar c = false ∧ c ≠ '[') →
      x ≠ '[' :: y := by
    rintro x y hx rfl
    exact (hx '[' rfl).2 rfl
  rcases hlabel with rfl | ⟨y, rfl, hy⟩ <;> rcases hlabel' with rfl | ⟨y', rfl, hy'⟩
  · exact ⟨rfl, h⟩
  · exact absurd h (hbracket hx)
  · exact absurd h.symm (hbracket hx')
  · simp only [List.cons_append, List.append_assoc, List.cons.injEq, true_and,
      List.nil_append] at h
    obtain ⟨rfl, hrest⟩ := Text.append_cons_inj hy hy' h
    exact ⟨rfl, hrest⟩

theorem head?_arrow (ha : IsLineArrow a) : ∀ c ∈ (a ++ x).head?, Text.isBlank c = false := by
  rcases ha with rfl | rfl <;>
  · rintro c ⟨⟩
    decide

/-- Two edges that begin alike up to what stands behind the source begin with the same parts. -/
theorem start_unique (e e' : PlainEdge) (hx : ∀ c ∈ x.head?, isIdentChar c = false ∧ c ≠ '[')
    (hx' : ∀ c ∈ x'.head?, isIdentChar c = false ∧ c ≠ '[')
    (h : e.indent ++ (e.source ++ (e.label ++ x)) = e'.indent ++ (e'.source ++ (e'.label ++ x'))) :
    e.indent = e'.indent ∧ e.source = e'.source ∧ e.label = e'.label ∧ x = x' := by
  obtain ⟨hindent, h⟩ := Text.run_unique e.blank_indent e'.blank_indent
    (fun _ hc ↦ e.isIdent_source.isBlank_head hc) (fun _ hc ↦ e'.isIdent_source.isBlank_head hc) h
  obtain ⟨hsource, h⟩ := e.isIdent_source.append_unique e'.isIdent_source
    (head?_label e.label_cases hx) (head?_label e'.label_cases hx') h
  obtain ⟨hlabel, h⟩ := label_append_inj e.label_cases e'.label_cases hx hx' h
  exact ⟨hindent, hsource, hlabel, h⟩

theorem text_injective : Function.Injective text := by
  intro e e' h
  obtain ⟨hindent, hsource, hlabel, h⟩ := start_unique e e'
    (head?_gap_arrow e.blank_gap e.isLineArrow_arrow)
    (head?_gap_arrow e'.blank_gap e'.isLineArrow_arrow) h
  obtain ⟨hgap, h⟩ := Text.run_unique e.blank_gap e'.blank_gap (head?_arrow e.isLineArrow_arrow)
    (head?_arrow e'.isLineArrow_arrow) h
  have hlength : e.arrow.length = e'.arrow.length := by
    rcases e.isLineArrow_arrow with ha | ha <;> rcases e'.isLineArrow_arrow with ha' | ha' <;>
      simp [ha, ha', Text.of]
  obtain ⟨harrow, h⟩ := List.append_inj h hlength
  obtain ⟨hgap', h⟩ := Text.run_unique e.blank_gap' e'.blank_gap'
    (fun _ hc ↦ e.isIdent_target.isBlank_head hc) (fun _ hc ↦ e'.isIdent_target.isBlank_head hc) h
  obtain ⟨htarget, hrest⟩ := e.isIdent_target.append_unique e'.isIdent_target e.rest_stops
    e'.rest_stops h
  exact PlainEdge.ext hindent hsource hlabel hgap harrow hgap' htarget hrest

/-- With a label an edge is no edge without one, as its arrow comes too late. -/
theorem labelled_ne_text (e e' : PlainEdge) (note : Text) : e.labelled note ≠ e'.text := by
  intro h
  obtain ⟨-, -, -, h⟩ := start_unique e e'
    (x := Text.of " -- \"" ++ (note ++ (Text.of "\" " ++ (e.arrow ++ ' ' :: (e.target ++ e.rest)))))
    (by rintro c ⟨⟩; decide) (head?_gap_arrow e'.blank_gap e'.isLineArrow_arrow) h
  obtain ⟨-, h⟩ := Text.run_unique (u := [' ']) (r := Text.of "-- \"" ++ (note ++ (Text.of "\" " ++
      (e.arrow ++ ' ' :: (e.target ++ e.rest))))) (by simp; decide) e'.blank_gap
    (by rintro c ⟨⟩; decide) (head?_arrow e'.isLineArrow_arrow) h
  rcases e'.isLineArrow_arrow with ha | ha
  all_goals
    rw [ha] at h
    simp [Text.of] at h

/-- The arrow of an edge holds no pipe behind it. -/
theorem head?_gap_target (e : PlainEdge) :
    ∀ c ∈ (e.gap' ++ (e.target ++ x)).head?, c ≠ '|' := by
  obtain ⟨d, t, ht⟩ := List.exists_cons_of_ne_nil e.isIdent_target.1
  have hident : isIdentChar d := e.isIdent_target.2 d (by simp [ht])
  cases hgap : e.gap' with
  | nil =>
    rw [ht]
    rintro c ⟨⟩ rfl
    exact absurd hident (by decide)
  | cons c' s =>
    have hblank : Text.isBlank c' := e.blank_gap' c' (by simp [hgap])
    rintro c ⟨⟩ rfl
    exact absurd hblank (by decide)

end PlainEdge

/-- What stands behind the target of an edge does not go on with it: a search takes the longest
word there first, and the rest of a line can be anything. -/
theorem rest_stops_of_match? (hp : p.steady) (hline : '\n' ∉ line)
    (hm : (p ++ group "target" ident ++ group "rest" (many any) ++ lastLineEnd).match? line =
      some m) : ∀ c ∈ (m.group "rest").head?, isIdentChar c = false := by
  -- the pattern in steps: the target, the rest of the line, and its end
  change p.run ⟨[], line, []⟩ (fun s ↦ ident.run s fun s₁ ↦
    (many any).run ⟨s₁.before, s₁.after, ("target", s.after, s₁.after) :: s₁.captures⟩ fun s₂ ↦
      if s₂.after == [] || s₂.after == ['\n'] then
        some ⟨[], line.take (line.length - s₂.after.length), s₂.after,
          ("rest", s₁.after, s₂.after) :: s₂.captures⟩ else none) = some m at hm
  obtain ⟨u, t, cs, hafter, -, htarget⟩ := (sound_and_complete p hp).1 hm
  obtain ⟨v, w, cs', ht, hv, -⟩ := (sound_and_complete ident (by decide)).1 htarget
  obtain ⟨⟨hne, hident⟩, -⟩ := takes_ident.mp hv
  simp only [List.append_nil] at hafter ht htarget
  obtain ⟨word, rest, hsplit, hword, hstops⟩ := Text.exists_run isIdentChar t
  have hsome : word ≠ [] := by
    rintro rfl
    obtain ⟨c, v, rfl⟩ := List.exists_cons_of_ne_nil hne
    rw [List.nil_append] at hsplit
    have hc := hstops c (by simp [← hsplit, ht])
    simp [hident c (by simp)] at hc
  have hany : ∀ c ∈ rest, (c != '\n') = true :=
    forall_any_iff.mpr fun hmem ↦ hline (by simp [hafter, hsplit, hmem])
  have hfound := htarget.symm.trans (run_many1_one hsplit hsome hword hstops
    (run_many_one (List.append_nil _).symm hany (by simp) rfl))
  obtain rfl := Option.some.inj hfound
  simpa [Match.group, Match.group?] using hstops

theorem of_match?_plainEdgePattern (hline : '\n' ∉ line)
    (hm : plainEdgePattern.match? line = some m) :
    ∃ e : PlainEdge, line = e.text ∧ m.group "indent" = e.indent ∧ m.group "source" = e.source ∧
      m.group "label" = e.label ∧ m.group "arrow" = e.arrow ∧ m.group "target" = e.target ∧
      m.group "rest" = e.rest := by
  have hstops := rest_stops_of_match? (by decide) hline hm
  obtain ⟨s, s', x, hx, hindent, hsource, hlabel, hs, harrow, hs', htarget, -, rfl | rfl⟩ :=
    of_plainEdgePattern hm
  · rw [List.append_nil] at hx
    exact ⟨⟨_, _, _, s, _, s', _, _, hindent, hsource, hlabel, hs, harrow, hs', htarget, hstops⟩, hx,
      rfl, rfl, rfl, rfl, rfl, rfl⟩
  · exact absurd (by simp [hx]) hline

theorem isMatch_plainEdgePattern (e : PlainEdge) (h : '\n' ∉ e.text) :
    plainEdgePattern.isMatch e.text := by
  have hrest : '\n' ∉ e.rest := fun hmem ↦ h (by simp [PlainEdge.text, hmem])
  have hbar : ∀ b : Text, ¬ ∃ v w g, e.gap' ++ (e.target ++ e.rest) = v ++ w ∧
      (sign "|").Takes b v w g := by
    rintro b ⟨v, w, g, heq, htakes⟩
    obtain ⟨rfl, -⟩ := takes_sign.mp htakes
    exact e.head?_gap_target '|' (by rw [heq]; rfl) rfl
  have hsource : ∀ x, (textStart ++ group "indent" blanks ++ group "source" ident).Takes []
      (e.indent ++ e.source) x [("source", e.source), ("indent", e.indent)] := by
    intro x
    simp only [takes_append_group, takes_ident, takes_blanks, takes_textStart, existsAndEq,
      true_and, and_true, List.nil_append]
    exact ⟨e.indent, e.source, rfl, rfl, e.isIdent_source, e.blank_indent⟩
  have hlabel : ∀ b x, ∃ g, (opt (group "label" squareLabel)).Takes b e.label x g := by
    intro b x
    rcases e.label_cases with hnil | hsquare
    · exact ⟨[], takes_opt.mpr (.inr ⟨hnil, rfl⟩)⟩
    · exact ⟨_, takes_opt.mpr (.inl (takes_group.mpr
        ⟨[], rfl, takes_squareLabel.mpr ⟨hsquare, rfl⟩⟩))⟩
  obtain ⟨g, hg⟩ := hlabel (e.source.reverse ++ e.indent.reverse)
    (e.gap ++ (e.arrow ++ (e.gap' ++ (e.target ++ e.rest))))
  suffices h : ∃ gs, plainEdgePattern.Takes [] e.text [] gs by
    obtain ⟨gs, hgs⟩ := h
    exact (isMatch_iff (by decide)).mpr ⟨e.text, [], gs, (List.append_nil _).symm, hgs⟩
  simp only [plainEdgePattern, many, takes_append_lastLineEnd, takes_append_group, takes_star_any,
    takes_ident, takes_append_blanks, takes_append_notAhead, ↓takes_lineArrow, existsAndEq,
    true_and, and_assoc, List.append_assoc, List.nil_append, List.append_nil]
  refine ⟨e.rest, e.target, e.gap', e.arrow, g ++ [("source", e.source), ("indent", e.indent)],
    e.indent ++ (e.source ++ e.label), e.gap, .inl trivial, by simp [PlainEdge.text], hrest,
    e.isIdent_target, e.blank_gap', hbar _, e.isLineArrow_arrow, e.blank_gap, ?_⟩
  refine takes_append.mpr ⟨e.indent ++ e.source, e.label, _, g, by simp, rfl, hsource _, ?_⟩
  simpa using hg

/-- A line is labelled when it is an edge of the node that has no label. -/
theorem labelEdge?_eq_some_iff (hline : '\n' ∉ line) : labelEdge? node note line = some line' ↔
    ∃ e : PlainEdge, line = e.text ∧ e.touches node ∧ line' = e.labelled note := by
  rw [labelEdge?, Option.bind_eq_some_iff]
  constructor
  · rintro ⟨m, hm, h⟩
    obtain ⟨e, he, hindent, hsource, hlabel, harrow, htarget, hrest⟩ :=
      of_match?_plainEdgePattern hline hm
    rw [Option.ite_none_right_eq_some, hindent, hsource, hlabel, harrow, htarget, hrest] at h
    refine ⟨e, he, by simpa [PlainEdge.touches] using h.1, ?_⟩
    simpa [PlainEdge.labelled] using (Option.some.inj h.2).symm
  · rintro ⟨e, rfl, htouches, rfl⟩
    obtain ⟨m, hm⟩ := Option.isSome_iff_exists.mp (isMatch_plainEdgePattern e hline)
    obtain ⟨e', he', hindent, hsource, hlabel, harrow, htarget, hrest⟩ :=
      of_match?_plainEdgePattern hline hm
    obtain rfl := PlainEdge.text_injective he'
    refine ⟨m, hm, ?_⟩
    rw [hindent, hsource, hlabel, harrow, htarget, hrest]
    simp_all [PlainEdge.touches, PlainEdge.labelled]

theorem not_touches_of_labelEdge? (hline : '\n' ∉ line) (h : labelEdge? node note line = none)
    {e : PlainEdge} (he : line = e.text) : ¬ e.touches node := by
  intro htouches
  have hsome : labelEdge? node note line = some (e.labelled note) :=
    (labelEdge?_eq_some_iff hline).mpr ⟨e, he, htouches, rfl⟩
  rw [h] at hsome
  cases hsome

end DiagramRepair.Rule
