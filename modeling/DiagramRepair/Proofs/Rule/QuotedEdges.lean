import DiagramRepair.Proofs.Line.QuotedBars
import DiagramRepair.Proofs.Rule.EdgeLabel
import DiagramRepair.Proofs.Text.Lines

namespace DiagramRepair.Rule

open Pattern Line

variable {b b' r s t t' u arrow label : Text}

theorem EdgeLabel.congr (h : EdgeLabel b u label arrow) (hb : b'.head? = b.head?) :
    EdgeLabel b' u label arrow := by
  obtain ⟨hs, hlabel, hs', harrow, hsets⟩ := h
  exact .mk hs hlabel hs' harrow (SetsOff.congr hsets hb rfl)

/-- After something without two dashes in a row, no separator starts before the arrow ends. -/
theorem behind_arrow_of_setsOff {k : Text} (hk : NoDoubleDash k arrow) (harrow : IsLineArrow arrow)
    (hb : SetsOff (s.reverse ++ b) r) (h : k ++ (arrow ++ t) = s ++ '-' :: '-' :: r) :
    ∃ s', s = k ++ (arrow ++ s') ∧ t = s' ++ '-' :: '-' :: r := by
  obtain ⟨c, rfl, hc⟩ := harrow.exists_eq
  have hafter : r ≠ c :: t := by
    rintro rfl
    obtain ⟨-, hr, hr'⟩ := hb
    rcases hc with rfl | rfl
    · exact hr rfl
    · exact hr' rfl
  have hdash : ∀ s', s ≠ s' ++ ['-'] := by
    rintro s' rfl
    simp [SetsOff] at hb
  rcases List.append_eq_append_iff.mp h with ⟨y, rfl, hy⟩ | ⟨y, rfl, hy⟩
  · -- The dashes stand at one of three places in the arrow, or behind it.
    rcases y with _ | ⟨_, _ | ⟨_, _ | ⟨_, y⟩⟩⟩
    · exact absurd (by simpa using hy.symm) hafter
    · obtain ⟨rfl, -⟩ := List.cons.inj hy
      exact absurd rfl (hdash k)
    · obtain ⟨rfl, rfl, -⟩ : '-' = _ ∧ '-' = _ ∧ _ := by simpa using hy
      exact absurd (by simp) (hdash (k ++ ['-']))
    · obtain ⟨rfl, rfl, rfl, rfl⟩ : '-' = _ ∧ '-' = _ ∧ c = _ ∧ t = _ := by simpa using hy
      exact ⟨y, rfl, rfl⟩
  · obtain rfl := hk.eq_nil hy
    exact absurd (by simpa using hy) hafter

/-- Of dashes, something without two of them in a row, and an arrow, the first dashes only can be a
separator. -/
theorem behind_of_setsOff {k : Text} (hk : NoDoubleDash k arrow) (harrow : IsLineArrow arrow)
    (hs : s ≠ []) (hb : SetsOff (s.reverse ++ b) r)
    (h : Text.of "--" ++ (k ++ arrow) ++ t = s ++ '-' :: '-' :: r) :
    ∃ s', s = Text.of "--" ++ (k ++ arrow) ++ s' ∧ t = s' ++ '-' :: '-' :: r := by
  rcases s with _ | ⟨d, _ | ⟨e, s⟩⟩
  · exact absurd rfl hs
  · obtain rfl : '-' = d := (List.cons.inj h).1
    simp [SetsOff] at hb
  · obtain ⟨rfl, rfl, hgap⟩ : '-' = d ∧ '-' = e ∧ k ++ (arrow ++ t) = s ++ '-' :: '-' :: r := by
      simpa [Text.of] using h
    have hbehind : SetsOff (s.reverse ++ '-' :: '-' :: b) r := by simpa using hb
    obtain ⟨s', rfl, rfl⟩ := behind_arrow_of_setsOff hk harrow hbehind hgap
    exact ⟨s', by simp [Text.of], rfl⟩

/-- Between its dashes and its arrow stands the label, with nothing but blanks around it. -/
theorem EdgeLabel.exists_gap (h : EdgeLabel b u label arrow) : ∃ k,
    u = Text.of "--" ++ (k ++ arrow) ∧ NoDoubleDash k arrow ∧ '"' ∉ k ∧
      Text.trim k = Text.trim label := by
  obtain ⟨hs, hlabel, hs', harrow, -⟩ := h
  have hblank : Text.isBlank '"' = false := by decide
  refine ⟨_, by simp, hlabel.noDoubleDash hs hs', ?_, Text.trim_append_blanks hs hs'⟩
  obtain ⟨c, x, rfl, -, hc, -, hx, -⟩ := hlabel
  simp [hs.not_mem hblank, hs'.not_mem hblank, hx, hc.symm]

theorem EdgeLabel.isLineArrow (h : EdgeLabel b u label arrow) : IsLineArrow arrow := by
  obtain ⟨-, -, -, harrow, -⟩ := h
  exact harrow

theorem EdgeLabel.quote_not_mem (h : EdgeLabel b u label arrow) : '"' ∉ u := by
  obtain ⟨k, rfl, -, hk, -⟩ := h.exists_gap
  rcases h.isLineArrow with rfl | rfl <;> simp [Text.of, hk]

/-- A label starts with a separator. -/
theorem EdgeLabel.setsOff (h : EdgeLabel b u label arrow) (r : Text) :
    ∃ t, u ++ r = '-' :: '-' :: t ∧ SetsOff b t := by
  obtain ⟨hs, hlabel, hs', harrow, hb⟩ := h
  exact ⟨_, rfl, SetsOff.congr hb rfl (by simp [hlabel.head_append])⟩

theorem EdgeLabel.trim_unique {u' label' arrow' r' : Text} (h : EdgeLabel b u label arrow)
    (h' : EdgeLabel b u' label' arrow') (heq : u ++ r = u' ++ r') :
    Text.trim label = Text.trim label' := by
  obtain ⟨k, rfl, hk, -, htrim⟩ := h.exists_gap
  obtain ⟨k', rfl, hk', -, htrim'⟩ := h'.exists_gap
  obtain ⟨c, rfl, -⟩ := h.isLineArrow.exists_eq
  obtain ⟨c', rfl, -⟩ := h'.isLineArrow.exists_eq
  have hgap : k ++ '-' :: '-' :: c :: r = k' ++ '-' :: '-' :: c' :: r' := by
    simpa [Text.of] using heq
  have hread : NoDoubleDash k ('-' :: c :: r) := hk.congr rfl
  have hread' : NoDoubleDash k' ('-' :: c' :: r') := hk'.congr rfl
  rw [← htrim, ← htrim', hread.unique hread' hgap]

/-- A quoted edge starts with dashes, a blank and a quote, so a stretch without quotes ends before
the label. -/
theorem exists_of_quotedEdge (hu : '"' ∉ u) (h : u ++ r = quotedEdge label arrow ++ t) :
    ∃ w z, ['-', '-', ' '] = u ++ w ∧ r = w ++ '"' :: z := by
  have hsplit : u ++ r = ['-', '-', ' '] ++
      '"' :: (Text.trim label ++ (Text.of "\" " ++ (arrow ++ t))) := by
    simpa [quotedEdge, Text.of] using h
  obtain ⟨w, hw, hr⟩ := Text.exists_of_not_mem_left hu hsplit
  exact ⟨w, _, hw, hr⟩

inductive QuotesEdge : (b u r v : Text) → Prop
  | mk {b u r label arrow : Text} (h : EdgeLabel b u label arrow) (hr : r.head? ≠ some '-')
    (hneeds : needsQuotes (Text.trim label)) : QuotesEdge b u r (quotedEdge label arrow)

theorem edits_of_replaces (h : edgeLabelPattern.Replaces quoteEdgeLabel b t t') :
    Edits QuotesEdge b t t' := by
  refine h.edits fun m hm ↦ ?_
  obtain ⟨label, arrow, hedge, hafter, hquoted⟩ := quoteEdgeLabel_eq hm
  rw [hquoted]
  split
  · exact .inr (.mk hedge hafter ‹_›)
  · exact .inl rfl

theorem replaces_quoteEdgeLabels (line : Text) :
    edgeLabelPattern.Replaces quoteEdgeLabel [] line (quoteEdgeLabels line) :=
  replaces_replaceAll (by decide) (by decide) quoteEdgeLabel line

/-- Before the first quote of the output nothing has changed, and where an arrow ends before it, one
ended before. -/
theorem exists_of_quotesEdge (h : Edits QuotesEdge b t t') (hu : '"' ∉ u) (ht' : t' = u ++ r)
    (harrow : IsLineArrow arrow) (hend : arrow.reverse <+: u.reverse ++ b)
    (hr : r.head? ≠ some '-') : ∃ r', t = u ++ r' ∧ r'.head? ≠ some '-' := by
  induction h generalizing u with
  | nil b => exact ⟨r, ht', hr⟩
  | @keep b t t' c _ ih =>
    cases u with
    | nil =>
      obtain rfl : c :: t' = r := ht'
      exact ⟨c :: t, rfl, hr⟩
    | cons d u =>
      obtain ⟨rfl, hrest⟩ := List.cons.inj ht'
      obtain ⟨r', rfl, hr'⟩ := ih (fun h ↦ hu (by simp [h])) hrest (by simpa using hend)
      exact ⟨r', rfl, hr'⟩
  | @edit b _ _ _ t' he _ _ =>
    obtain @⟨label', arrow', hedge, -, -⟩ := he
    obtain ⟨-, -, hb, -⟩ := hedge.setsOff []
    obtain ⟨c, rfl, -⟩ := harrow.exists_eq
    -- In the dashes and the blank before the quote no arrow ends.
    obtain ⟨w, z, hw, rfl⟩ := exists_of_quotedEdge hu ht'.symm
    rcases u with _ | ⟨_, _ | ⟨_, _ | ⟨_, u⟩⟩⟩
    · obtain rfl : ['-', '-', ' '] = w := hw
      exact absurd rfl hr
    · obtain ⟨rfl, rfl⟩ : '-' = _ ∧ ['-', ' '] = w := by simpa using hw
      exact absurd rfl hr
    · obtain ⟨rfl, rfl, rfl⟩ : '-' = _ ∧ '-' = _ ∧ [' '] = w := by simpa using hw
      cases b with
      | nil => simpa using hend.length_le
      | cons d b =>
        obtain ⟨-, rfl⟩ : c = '-' ∧ '-' = d := by simpa using hend
        exact absurd rfl hb
    · obtain ⟨rfl, rfl, rfl, hnil⟩ : '-' = _ ∧ '-' = _ ∧ ' ' = _ ∧ [] = u ++ w := by simpa using hw
      obtain ⟨rfl, rfl⟩ := List.append_eq_nil_iff.mp hnil.symm
      obtain rfl : c = ' ' := by simpa using hend
      simp [IsLineArrow, Text.of] at harrow

/-- What is read as an edge at the start of the output stands there in the input too. -/
theorem exists_append_of_replaces (h : edgeLabelPattern.Replaces quoteEdgeLabel b t t')
    (hedge : EdgeLabel b u label arrow) (ht' : t' = u ++ r) (hr : r.head? ≠ some '-') :
    ∃ r', t = u ++ r' ∧ r'.head? ≠ some '-' := by
  obtain ⟨k, rfl, -⟩ := hedge.exists_gap
  refine exists_of_quotesEdge (edits_of_replaces h) hedge.quote_not_mem ht' hedge.isLineArrow ?_ hr
  exact ⟨(Text.of "--" ++ k).reverse ++ b, by simp⟩

/-- A quoted edge is dashes, something without two dashes in a row, and an arrow. -/
theorem EdgeLabel.exists_quoted_gap (h : EdgeLabel b u label arrow) : ∃ k,
    quotedEdge label arrow = Text.of "--" ++ (k ++ arrow) ∧ NoDoubleDash k arrow := by
  refine ⟨Text.of " \"" ++ (Text.trim label ++ Text.of "\" "), by simp [quotedEdge, Text.of], ?_⟩
  obtain ⟨k, -, hk, -, htrim⟩ := h.exists_gap
  obtain ⟨s, s', hgap, -⟩ := Text.exists_trim k
  rw [htrim] at hgap
  intro p q hpq
  obtain ⟨p, -, hpq⟩ := Text.exists_of_not_mem_left (by decide) hpq
  obtain ⟨q, hlabel, rfl⟩ := Text.exists_of_not_mem_right (by decide) hpq
  cases q with
  | nil => simp [Text.of]
  | cons d q => exact hk (s ++ p) (d :: q ++ s') (by simp [hgap, hlabel])

theorem EdgeLabel.ne_quoted {label' arrow' : Text} (h : EdgeLabel b u label arrow) :
    u ++ r ≠ quotedEdge label' arrow' ++ t := by
  intro heq
  obtain ⟨w, z, hw, -⟩ := exists_of_quotedEdge h.quote_not_mem heq
  have hlen := congrArg List.length hw
  obtain ⟨-, hlabel, -, harrow, -⟩ := h
  obtain ⟨c, rfl, -⟩ := harrow.exists_eq
  obtain ⟨d, x, rfl, -⟩ := hlabel
  simp [Text.of] at hlen
  omega

/-- The edges that are read in the output have labels that need no quotes. `b'` stands for what the
output has before the text. -/
theorem needsQuotes_eq_false
    (h : edgeLabelPattern.Replaces quoteEdgeLabel b t t') (hb : b'.head? = b.head?)
    (ht' : t' = s ++ (u ++ r)) (hedge : EdgeLabel (s.reverse ++ b') u label arrow)
    (hr : r.head? ≠ some '-') : needsQuotes (Text.trim label) = false := by
  obtain ⟨y, hy, hsets⟩ := hedge.setsOff r
  induction h generalizing s b' with
  | nil => simp [hy] at ht'
  | @plain b t t' c hfree hrest ih =>
    cases s with
    | cons d s =>
      obtain ⟨rfl, hrest⟩ := List.cons.inj ht'
      rw [List.reverse_cons, List.append_assoc] at hedge hsets
      exact ih (by rfl) hrest hedge hsets
    | nil =>
      -- An edge that starts with a kept character would be a match of the input.
      have hedge' : EdgeLabel b u label arrow := EdgeLabel.congr hedge hb.symm
      obtain ⟨r', ht, hr'⟩ := exists_append_of_replaces (hrest.plain hfree) hedge' ht' hr
      exact absurd (takes_edgeLabelPattern.mpr ⟨hr', label, arrow, hedge', rfl⟩) (hfree u r' _ ht)
  | @found m t' hm hrest ih =>
    obtain ⟨label', arrow', hedge', -, hquoted⟩ := quoteEdgeLabel_eq hm
    obtain ⟨k', hwhole, hk', -⟩ := hedge'.exists_gap
    obtain ⟨k, hout, hk⟩ : ∃ k, quoteEdgeLabel m = Text.of "--" ++ (k ++ arrow') ∧
        NoDoubleDash k arrow' := by
      rw [hquoted]
      split
      · exact hedge'.exists_quoted_gap
      · exact ⟨k', hwhole, hk'⟩
    -- No separator stands inside what is written, so the edge is this one or lies behind it.
    by_cases hs : s = []
    · subst hs
      have hedge₀ : EdgeLabel m.before u label arrow := EdgeLabel.congr hedge hb.symm
      split at hquoted
      · rw [hquoted] at ht'
        exact absurd ht'.symm hedge₀.ne_quoted
      · obtain ⟨r', hsame, -⟩ := exists_append_of_replaces (hrest.found hm) hedge₀ ht' hr
        rw [hedge₀.trim_unique hedge' hsame.symm]
        simpa using ‹¬ needsQuotes _ = true›
    · rw [hy, hout] at ht'
      obtain ⟨s', rfl, rfl⟩ := behind_of_setsOff hk hedge'.isLineArrow hs hsets ht'
      rw [List.reverse_append, List.append_assoc] at hedge hsets
      refine ih ?_ (by rw [hy]) hedge hsets
      obtain ⟨c, rfl, -⟩ := hedge'.isLineArrow.exists_eq
      simp [hwhole]

theorem quoteEdgeLabels_quoteEdgeLabels (line : Text) :
    quoteEdgeLabels (quoteEdgeLabels line) = quoteEdgeLabels line := by
  refine (edits_of_replaces (replaces_quoteEdgeLabels (quoteEdgeLabels line))).eq_of_forall ?_
  rintro s u r _ ht ⟨hedge, hr, hneeds⟩
  have hplain := needsQuotes_eq_false (replaces_quoteEdgeLabels line) rfl ht hedge hr
  simp [hplain] at hneeds

/-- The quoting rules reach their normal form at once: no label in bars is left without quotes, and
a second run of either rule changes nothing. A label in bars that gets quotes holds none before. -/
theorem quoting_reaches_normal_form (line : Text) :
    pipeLabelPattern.occursIn (quotePipeLabels line) = false ∧
    quoteEdgeLabels (quoteEdgeLabels line) = quoteEdgeLabels line ∧
    quotePipeLabels (quotePipeLabels line) = quotePipeLabels line ∧
    ∀ m ∈ pipeLabelPattern.findAll line, '"' ∉ m.group "label" :=
  ⟨occursIn_pipeLabelPattern_quotePipeLabels line, quoteEdgeLabels_quoteEdgeLabels line,
    quotePipeLabels_quotePipeLabels line, fun _ ↦ quote_not_mem_of_mem_findAll⟩

end DiagramRepair.Rule
