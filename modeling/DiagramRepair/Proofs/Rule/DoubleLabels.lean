import DiagramRepair.Proofs.Pattern.First
import DiagramRepair.Proofs.Rule.EdgeLabel
import DiagramRepair.Proofs.Text.Lines

namespace DiagramRepair.Rule

open Pattern

variable {a b r s s' t u arrow line : Text} {m : Match}

inductive DashLabel where
  | quoted (text : Text) (no_quote : '"' ∉ text)
  | plain (text : Text) (ne_nil : text ≠ []) (no_quote : '"' ∉ text) (no_dash : '-' ∉ text)
    (first : ∀ c ∈ text.head?, Text.isBlank c = false)
    (last : ∀ c ∈ text.getLast?, Text.isBlank c = false)

namespace DashLabel

def text : DashLabel → Text
  | quoted t _ => t
  | plain t .. => t

def spelled : DashLabel → Text
  | quoted t _ => '"' :: (t ++ ['"'])
  | plain t .. => t

theorem no_quote_text (l : DashLabel) : '"' ∉ l.text := by
  cases l <;> assumption

theorem isEitherLabel (l : DashLabel) (r : Text) : IsEitherLabel l.spelled r := by
  cases l with
  | quoted x hx => exact .inl ⟨x, rfl, hx⟩
  | plain x hne hquote hdash =>
    refine .inr ⟨hne, hquote, ?_⟩
    rintro p q rfl
    simp at hdash

end DashLabel

theorem unquote_quoted (t : Text) : unquote ('"' :: (t ++ ['"'])) = t := by
  have htrim : Text.trim ('"' :: (t ++ ['"'])) = '"' :: (t ++ ['"']) :=
    Text.trim_eq_self (by rintro c ⟨⟩; decide) (by simp [List.getLast?_cons]; decide)
  have hquotes : (decide (2 ≤ ('"' :: (t ++ ['"'])).length) &&
      Text.startsWith ('"' :: (t ++ ['"'])) ['"'] &&
        Text.endsWith ('"' :: (t ++ ['"'])) ['"']) = true := by
    simp only [Text.startsWith, Text.endsWith, Bool.and_eq_true, decide_eq_true_eq,
      List.isPrefixOf_iff_prefix, List.isSuffixOf_iff_suffix]
    exact ⟨⟨by simp, _, rfl⟩, '"' :: t, rfl⟩
  simp only [unquote, htrim, hquotes, if_true, List.tail_cons, List.dropLast_concat]

theorem unquote_of_trim (hu : Text.trim u = t) (ht : '"' ∉ t) : unquote u = t := by
  rcases unquote_cases u with h | h
  · rw [h, hu]
  · rw [hu] at h
    simp [h] at ht

/-- In front of two dashes there is one label to be read, and it is the one that is written. -/
theorem DashLabel.read_unique (l : DashLabel) (hs : Blank s) (hs' : Blank s')
    (hu : IsEitherLabel u (s' ++ '-' :: '-' :: r))
    (h : s ++ (u ++ (s' ++ '-' :: '-' :: r)) = ' ' :: (l.spelled ++ ' ' :: '-' :: '-' :: t)) :
    unquote u = l.text ∧ r = t := by
  cases l with
  | quoted x hx =>
    rcases hu with ⟨y, rfl, hy⟩ | ⟨-, hquote, -⟩
    · have hopen : s ++ '"' :: (y ++ '"' :: (s' ++ '-' :: '-' :: r)) =
          [' '] ++ '"' :: (x ++ '"' :: ([' '] ++ '-' :: '-' :: t)) := by
        simpa [spelled] using h
      obtain ⟨-, hlabel⟩ := Text.append_cons_inj (hs.not_mem (by decide)) (by decide) hopen
      obtain ⟨rfl, hrest⟩ := Text.append_cons_inj hy hx hlabel
      obtain ⟨-, hdashes⟩ := Text.append_cons_inj (hs'.not_mem (by decide)) (by decide) hrest
      exact ⟨unquote_quoted y, (List.cons.inj hdashes).2⟩
    · -- Without quotes the label would have to end before the first one, and there are no dashes.
      have hclosed : (s ++ (u ++ s')) ++ '-' :: '-' :: r =
          [' '] ++ '"' :: (x ++ '"' :: ' ' :: '-' :: '-' :: t) := by
        simpa [spelled] using h
      have hfree : '"' ∉ s ++ (u ++ s') := by
        have hblank : Text.isBlank '"' = false := by decide
        simp [hquote, hs.not_mem hblank, hs'.not_mem hblank]
      obtain ⟨p, hp, hrest⟩ := Text.exists_of_not_mem_left hfree hclosed
      cases p with
      | nil => simp at hrest
      | cons c p =>
        obtain ⟨rfl, -⟩ := List.cons.inj hrest
        have hdash : '-' ∈ [' '] := hp ▸ by simp
        exact absurd hdash (by decide)
  | plain x hne hquote hdash hfirst hlast =>
    rcases hu with ⟨y, rfl, hy⟩ | ⟨-, -, hdashes⟩
    · have hopen : s ++ '"' :: (y ++ '"' :: (s' ++ '-' :: '-' :: r)) =
          [' '] ++ (x ++ ' ' :: '-' :: '-' :: t) := by
        simpa [spelled] using h
      obtain ⟨c, x, rfl⟩ := List.exists_cons_of_ne_nil hne
      have hblank : ∀ c ∈ [' '], Text.isBlank c := by decide
      obtain ⟨-, hlabel⟩ := Text.run_unique hs hblank (by rintro c ⟨⟩; decide)
        (fun d hd ↦ hfirst d (by simpa using hd)) hopen
      obtain ⟨rfl, -⟩ := List.cons.inj hlabel
      simp at hquote
    · have hclosed : [' '] ++ (x ++ [' ']) ++ '-' :: '-' :: t =
          s ++ (u ++ s') ++ '-' :: '-' :: r := by
        simpa [spelled] using h.symm
      have hfree : '-' ∉ [' '] ++ (x ++ [' ']) := by simp [hdash]
      rcases Text.first_or_later hfree hclosed with ⟨hsame, htail⟩ | ⟨q, hlater, htail⟩
      · refine ⟨unquote_of_trim ?_ hquote, (List.cons.inj htail).2.symm⟩
        calc Text.trim u = Text.trim (s ++ (u ++ s')) := (Text.trim_append_blanks hs hs').symm
          _ = Text.trim ([' '] ++ (x ++ [' '])) := by rw [hsame]
          _ = x := Text.trim_append (by decide) (by decide) hfirst hlast
      · -- The label would go on over the first of the two dashes, but not with the other behind it.
        obtain ⟨p, -, hlabel⟩ := Text.exists_of_not_mem_left (hs.not_mem (by decide)) hlater
        obtain ⟨q, rfl, rfl⟩ := Text.exists_of_not_mem_right (hs'.not_mem (by decide)) hlabel
        refine absurd ?_ (hdashes p q rfl)
        rw [← List.append_assoc, ← htail]
        rfl

theorem free_doubleLabelPattern (ht : t.head? ≠ some '-') : doubleLabelPattern.Free b t := by
  rintro u r gs rfl htakes
  obtain ⟨_, _, _, _, _, _, _, rfl, -⟩ := takes_doubleLabelPattern.mp htakes
  simp [Text.of] at ht

def doubleLabel (x y : DashLabel) (arrow : Text) : Text :=
  Text.of "--" ++ ([' '] ++ (x.spelled ++ ([' '] ++ (Text.of "--" ++ ([' '] ++ (y.spelled ++
    ([' '] ++ arrow)))))))

theorem takes_doubleLabel (x y : DashLabel) (harrow : IsLineArrow arrow) (hb : b.head? ≠ some '-')
    (hr : r.head? ≠ some '-') : doubleLabelPattern.Takes b (doubleLabel x y arrow) r
      [("arrow", arrow), ("second", y.spelled), ("first", x.spelled)] := by
  refine takes_doubleLabelPattern.mpr ⟨[' '], x.spelled, [' '], [' '], y.spelled, [' '], arrow, rfl,
    rfl, by decide, x.isEitherLabel _, by decide, by decide, y.isEitherLabel _, by decide, harrow,
    hr, ⟨hb, by simp, by simp⟩, ?_, by simp, by simp⟩
  simp

/-- What is matched in an edge with two labels is all of it, and the labels have their texts. -/
theorem of_doubleLabelPattern {x y : DashLabel} (harrow : IsLineArrow arrow)
    (hm : m.Of doubleLabelPattern) (h : doubleLabel x y arrow ++ r = m.whole ++ m.after) :
    m.whole = doubleLabel x y arrow ∧ unquote (m.group "first") = x.text ∧
      unquote (m.group "second") = y.text ∧ m.group "arrow" = arrow := by
  obtain ⟨gs, htakes, hgs⟩ := hm
  obtain ⟨s, first, s₁, s₂, second, s₃, arrow', hwhole, rfl, hs, hfirst, hs₁, hs₂, hsecond, hs₃,
    harrow', -⟩ := takes_doubleLabelPattern.mp htakes
  have hdashes : ∀ t, Text.of "--" ++ t = '-' :: '-' :: t := fun _ ↦ rfl
  obtain ⟨c, rfl, -⟩ := harrow.exists_eq
  obtain ⟨c', rfl, -⟩ := harrow'.exists_eq
  have hread : s ++ (first ++ (s₁ ++ '-' :: '-' :: (s₂ ++ (second ++ (s₃ ++ '-' :: '-' :: c' ::
      m.after))))) = ' ' :: (x.spelled ++ ' ' :: '-' :: '-' :: ' ' :: (y.spelled ++
        ' ' :: '-' :: '-' :: c :: r)) := by
    simpa [hwhole, doubleLabel, hdashes] using h.symm
  obtain ⟨hx, hread⟩ := x.read_unique hs hs₁ (by simpa [hdashes] using hfirst) hread
  obtain ⟨hy, hread⟩ := y.read_unique hs₂ hs₃ (by simpa using hsecond) hread
  obtain ⟨rfl, hafter⟩ := List.cons.inj hread
  rw [hafter] at h
  refine ⟨(List.append_cancel_right h).symm, ?_, ?_, ?_⟩
  all_goals simp only [Match.group, hgs]
  · exact hx
  · exact hy
  · rfl

def joinLabels (m : Match) : Text :=
  Text.of "-- \"" ++ unquote (m.group "first") ++ Text.of "<br>" ++ unquote (m.group "second") ++
    Text.of "\" " ++ m.group "arrow"

theorem mergeSeparatedLabels_eq_replaceFrom (line : Text) :
    mergeSeparatedLabels line = doubleLabelPattern.replaceFrom joinLabels [] line := rfl

theorem replaceFrom_of_no_dash (hu : '-' ∉ u) :
    doubleLabelPattern.replaceFrom joinLabels b (u ++ t) =
      u ++ doubleLabelPattern.replaceFrom joinLabels (u.reverse ++ b) t := by
  refine replaceFrom_append_of_free (by decide) fun s v hsv hne ↦ free_doubleLabelPattern ?_
  obtain ⟨c, v, rfl⟩ := List.exists_cons_of_ne_nil hne
  rintro ⟨⟩
  simp [hsv] at hu

theorem replaceFrom_doubleLabel (x y : DashLabel) (harrow : IsLineArrow arrow)
    (hb : b.head? ≠ some '-') (hr : r.head? ≠ some '-') :
    doubleLabelPattern.replaceFrom joinLabels b (doubleLabel x y arrow ++ r) =
      Text.of "-- \"" ++ x.text ++ Text.of "<br>" ++ y.text ++ Text.of "\" " ++ arrow ++
        doubleLabelPattern.replaceFrom joinLabels ((doubleLabel x y arrow).reverse ++ b) r := by
  have htakes := takes_doubleLabel x y harrow hb hr
  obtain ⟨m, hm⟩ := Option.isSome_iff_exists.mp (matchAt?_isSome (by decide) htakes)
  obtain ⟨hof, -, htext⟩ := of_matchAt? (by decide) hm
  obtain ⟨hwhole, hx, hy, harrow'⟩ := of_doubleLabelPattern harrow hof htext
  rw [replaceFrom_of_matchAt? hm hwhole (htakes.ne_nil (by decide)), joinLabels, hx, hy, harrow']

theorem mergeSeparatedLabels_eq (x y : DashLabel) (ha : IsIdent a) (hb : IsIdent b)
    (harrow : IsLineArrow arrow) :
    mergeSeparatedLabels (a ++ [' '] ++ (doubleLabel x y arrow ++ (' ' :: b))) =
      a ++ [' '] ++ (Text.of "-- \"" ++ x.text ++ Text.of "<br>" ++ y.text ++ Text.of "\" " ++
        arrow ++ (' ' :: b)) := by
  have ha' : '-' ∉ a := ha.not_mem (by decide)
  have hb' : '-' ∉ b := hb.not_mem (by decide)
  have hrest : ∀ b', doubleLabelPattern.replaceFrom joinLabels b' (' ' :: b) = ' ' :: b := by
    intro b'
    have hall := replaceFrom_of_no_dash (b := b') (t := []) (u := ' ' :: b) (by simp [hb'])
    simpa [replaceFrom, piecesFrom] using hall
  rw [mergeSeparatedLabels_eq_replaceFrom, replaceFrom_of_no_dash (by simp [ha']),
    replaceFrom_doubleLabel x y harrow (by simp) (by simp), hrest]

def HasBarBehindLabel (line : Text) : Prop :=
  ∃ a first s s' r, '"' ∉ first ∧ Blank s ∧ Blank s' ∧
    line = a ++ '"' :: (first ++ '"' :: (s ++ (Text.of "-->" ++ (s' ++ '|' :: r))))

theorem mergePipeLabels_eq_self (h : ¬ HasBarBehindLabel line) : mergePipeLabels line = line := by
  refine replaceAll_eq_self (by decide) (by decide) fun s u r gs hline htakes ↦ h ?_
  simp only [labelThenPipePattern, many, takes_append_sign, takes_append_opt_sign,
    takes_append_group, takes_append_blanks, takes_star_noneOf, takes_sign, existsAndEq, and_true,
    true_and, and_assoc, List.append_assoc] at htakes
  obtain ⟨q', second, q, s₂, s₁, first, s₀, rfl, -, -, -, -, hs₂, hs₁, hfirst, hs₀⟩ := htakes
  refine ⟨s ++ (Text.of "--" ++ s₀), first, s₁, s₂, q ++ (second ++ (q' ++ ('|' :: r))),
    hfirst _ (by decide), hs₁, hs₂, ?_⟩
  simpa [Text.of] using hline

def HasSeparator (line : Text) : Prop :=
  ∃ a r, line = a ++ '-' :: '-' :: r ∧ SetsOff a.reverse r

theorem mergeSeparatedLabels_eq_self (h : ¬ HasSeparator line) :
    mergeSeparatedLabels line = line := by
  refine replaceAll_eq_self (by decide) (by decide) fun s u r gs hline htakes ↦ h ?_
  obtain ⟨s₀, first, s₁, s₂, second, s₃, arrow, rfl, -, -, -, -, -, -, -, -, -, hsets, -⟩ :=
    takes_doubleLabelPattern.mp htakes
  refine ⟨s, _, hline.trans ?_, hsets⟩
  simp only [List.append_assoc]
  rfl

def chain : Text → List (Text × Text) → Text
  | first, [] => first
  | first, (arrow, node) :: links => first ++ ' ' :: (arrow ++ ' ' :: chain node links)

def IsLink (link : Text × Text) : Prop := IsLineArrow link.1 ∧ IsIdent link.2

variable {first : Text} {links : List (Text × Text)} {c : Char}

theorem not_mem_chain (hfirst : IsIdent first) (hlinks : ∀ link ∈ links, IsLink link)
    (hc : isIdentChar c = false) (hsigns : c ∉ Text.of " ->") : c ∉ chain first links := by
  induction links generalizing first with
  | nil => exact hfirst.not_mem hc
  | cons link links ih =>
    obtain ⟨arrow, node⟩ := link
    obtain ⟨⟨harrow, hnode⟩, hlinks⟩ := List.forall_mem_cons.mp hlinks
    have hrest := ih hnode hlinks
    have hfirst := hfirst.not_mem hc
    rcases harrow with rfl | rfl <;> simp_all [chain, Text.of]

/-- The dashes of a chain are all parts of its arrows. -/
theorem not_hasSeparator_chain (hfirst : IsIdent first) (hlinks : ∀ link ∈ links, IsLink link) :
    ¬ HasSeparator (chain first links) := by
  induction links generalizing first with
  | nil =>
    rintro ⟨p, r, h, -⟩
    refine hfirst.not_mem (c := '-') (by decide) ?_
    obtain rfl : first = p ++ '-' :: '-' :: r := h
    simp
  | cons link links ih =>
    obtain ⟨arrow, node⟩ := link
    obtain ⟨⟨harrow, hnode⟩, hrestLinks⟩ := List.forall_mem_cons.mp hlinks
    rintro ⟨p, r, h, hb, hr, hr'⟩
    have htext : first ++ [' '] ++ (arrow ++ ' ' :: chain node links) = p ++ '-' :: '-' :: r := by
      simpa [chain] using h
    have hdash : '-' ∉ first := hfirst.not_mem (by decide)
    obtain ⟨p, rfl, hrest⟩ := Text.exists_of_not_mem_left (by simp [hdash]) htext
    obtain ⟨c, rfl, hc⟩ := harrow.exists_eq
    -- The dashes stand at one of four places in the arrow and behind it, or in the rest.
    rcases p with _ | ⟨_, _ | ⟨_, _ | ⟨_, _ | ⟨_, p⟩⟩⟩⟩
    · obtain rfl : c :: ' ' :: chain node links = r := by simpa using hrest
      rcases hc with rfl | rfl
      · exact hr rfl
      · exact hr' rfl
    · obtain ⟨rfl, -⟩ : '-' = _ ∧ _ := by simpa using hrest
      simp at hb
    · simp at hrest
    · simp at hrest
    · simp only [List.cons_append, List.nil_append, List.cons.injEq] at hrest
      obtain ⟨-, -, -, -, hrest⟩ := hrest
      refine ih hnode hrestLinks ⟨p, r, hrest, ?_, hr, hr'⟩
      cases hp : p.reverse with
      | nil => simp
      | cons e q => simpa [hp] using hb

theorem not_hasBarBehindLabel (hs : '"' ∉ s) (hu : '"' ∉ u) (ht : '"' ∉ t) (hbar : '|' ∉ t) :
    ¬ HasBarBehindLabel (s ++ '"' :: (u ++ '"' :: t)) := by
  rintro ⟨p, label, s₁, s₂, r, hlabel, -, -, h⟩
  -- There are two quotes, and no bar behind them.
  rcases Text.first_or_later hs h with ⟨-, hrest⟩ | ⟨q, -, hrest⟩
  · obtain ⟨-, rfl⟩ := Text.append_cons_inj hu hlabel hrest
    simp at hbar
  · rcases Text.first_or_later hu hrest with ⟨-, rfl⟩ | ⟨q', -, rfl⟩ <;> simp at ht

theorem mergeDoubleLabels_chain (hfirst : IsIdent first) (hlinks : ∀ link ∈ links, IsLink link) :
    mergeDoubleLabels (chain first links) = chain first links := by
  have hquote : '"' ∉ chain first links := not_mem_chain hfirst hlinks (by decide) (by decide)
  have hbar : ¬ HasBarBehindLabel (chain first links) := by
    rintro ⟨a, label, s, s', r, -, -, -, h⟩
    simp [h] at hquote
  rw [mergeDoubleLabels, mergeSeparatedLabels_eq_self (not_hasSeparator_chain hfirst hlinks),
    mergePipeLabels_eq_self hbar]

theorem mergeDoubleLabels_doubleLabel (x y : DashLabel) (ha : IsIdent a) (hb : IsIdent b)
    (harrow : IsLineArrow arrow) :
    mergeDoubleLabels (a ++ [' '] ++ (doubleLabel x y arrow ++ (' ' :: b))) =
      a ++ [' '] ++ (Text.of "-- \"" ++ x.text ++ Text.of "<br>" ++ y.text ++ Text.of "\" " ++
        arrow ++ (' ' :: b)) := by
  have hmerged : a ++ [' '] ++ (Text.of "-- \"" ++ x.text ++ Text.of "<br>" ++ y.text ++
      Text.of "\" " ++ arrow ++ (' ' :: b)) =
        a ++ Text.of " -- " ++ '"' :: (x.text ++ Text.of "<br>" ++ y.text ++
          '"' :: (Text.of " " ++ arrow ++ Text.of " " ++ b)) := by
    simp [Text.of]
  have hquote : '"' ∉ a := ha.not_mem (by decide)
  have hquote' : '"' ∉ b := hb.not_mem (by decide)
  have hpipe : '|' ∉ b := hb.not_mem (by decide)
  rw [mergeDoubleLabels, mergeSeparatedLabels_eq x y ha hb harrow, hmerged]
  refine mergePipeLabels_eq_self (not_hasBarBehindLabel ?_ ?_ ?_ ?_)
  · simp [Text.of, hquote]
  · simp [Text.of, x.no_quote_text, y.no_quote_text]
  · rcases harrow with rfl | rfl <;> simp [Text.of, hquote']
  · rcases harrow with rfl | rfl <;> simp [Text.of, hpipe]

/-- Chains of links and edges with two labels are told apart: a chain of any length stays as it is,
and two labels of any form become one that has both their texts. -/
theorem mergeDoubleLabels_tells_apart :
    (∀ (first : Text) (links : List (Text × Text)), IsIdent first → (∀ link ∈ links, IsLink link) →
      mergeDoubleLabels (chain first links) = chain first links) ∧
    ∀ (a b arrow : Text) (x y : DashLabel), IsIdent a → IsIdent b → IsLineArrow arrow →
      mergeDoubleLabels (a ++ Text.of " -- " ++ x.spelled ++ Text.of " -- " ++ y.spelled ++
        Text.of " " ++ arrow ++ Text.of " " ++ b) =
      a ++ Text.of " -- \"" ++ x.text ++ Text.of "<br>" ++ y.text ++ Text.of "\" " ++ arrow ++
        Text.of " " ++ b := by
  refine ⟨fun _ _ hfirst hlinks ↦ mergeDoubleLabels_chain hfirst hlinks,
    fun a b arrow x y ha hb harrow ↦ ?_⟩
  have hline : a ++ Text.of " -- " ++ x.spelled ++ Text.of " -- " ++ y.spelled ++
      Text.of " " ++ arrow ++ Text.of " " ++ b =
        a ++ [' '] ++ (doubleLabel x y arrow ++ (' ' :: b)) := by
    simp [doubleLabel, Text.of]
  rw [hline, mergeDoubleLabels_doubleLabel x y ha hb harrow]
  simp [Text.of]

theorem mergeDoubleLabels_tells_apart_dashes :
    mergeDoubleLabels (Text.of "A --- B --> C --- D") = Text.of "A --- B --> C --- D" ∧
      mergeDoubleLabels (Text.of "A -- \"x --> y\" -- two words --- B") =
        Text.of "A -- \"x --> y<br>two words\" --- B" := by
  constructor
  · exact mergeDoubleLabels_tells_apart.1 (Text.of "A")
      [(Text.of "---", Text.of "B"), (Text.of "-->", Text.of "C"), (Text.of "---", Text.of "D")]
      ⟨by decide, by decide⟩ (by
        simp only [List.forall_mem_cons]
        exact ⟨⟨.inr rfl, by decide, by decide⟩, ⟨.inl rfl, by decide, by decide⟩,
          ⟨.inr rfl, by decide, by decide⟩, by simp⟩)
  · exact mergeDoubleLabels_tells_apart.2 (Text.of "A") (Text.of "B") (Text.of "---")
      (.quoted (Text.of "x --> y") (by decide))
      (.plain (Text.of "two words") (by decide) (by decide) (by decide) (by decide) (by decide))
      ⟨by decide, by decide⟩ ⟨by decide, by decide⟩ (.inr rfl)

end DiagramRepair.Rule
