import DiagramRepair.Proofs.Rule.Words

namespace DiagramRepair.Rule

open Pattern

inductive RelocatesLabel : Text → Text → Prop
  | mk {head arrow s target s' label s'' e : Text} (hhead : '\n' ∉ head)
    (harrow : IsLineArrow arrow) (hs : Blank s) (htarget : '"' ∉ target ∧ ';' ∉ target)
    (hs' : Blank s') (hlabel : '"' ∉ label) (hs'' : Blank s'') (he : e = [] ∨ e = ['\n']) :
    RelocatesLabel
      (head ++ (arrow ++ (s ++ (target ++ (Text.of ";" ++ (s' ++ (Text.of "\"" ++ (label ++
        (Text.of "\"" ++ (s'' ++ e))))))))))
      (Text.trimEnd head ++ (Text.of " -- \"" ++ (label ++ (Text.of "\" " ++ (arrow ++
        ' ' :: Text.trim (target ++ Text.of ";"))))))

theorem relocateTrailingLabels_cases (line : Text) :
    relocateTrailingLabels line = line ∨ RelocatesLabel line (relocateTrailingLabels line) := by
  rw [relocateTrailingLabels]
  split
  · exact .inl rfl
  · rename_i m hm
    obtain ⟨⟨gs, h, hgs⟩, -, hline⟩ := of_match? (by decide) hm
    simp only [trailingLabelPattern, lineArrow, many, manyLazy, takes_append_lastLineEnd,
      takes_append_blanks, takes_append_group, ↓takes_lineArrow, takes_append_sign,
      takes_star_noneOf, takes_star_any, takes_textStart, existsAndEq, and_true, true_and,
      and_assoc, List.append_assoc, List.nil_append] at h
    obtain ⟨he, s'', label, s', target, s, head, arrow, hu, hs'', rfl, hlabel, hs', htarget, hs,
      harrow, hhead, -⟩ := h
    rw [hline, hu]
    simp only [Match.group, hgs, List.append_assoc]
    exact .inr (.mk hhead harrow hs ⟨htarget _ (by decide), htarget _ (by decide)⟩ hs'
      (hlabel _ (by decide)) hs'' he)

inductive ConvertsGroup : (b u r v : Text) → Prop
  | named {b s s₁ q name q' s₂ r : Text} (hs : Blank s) (hs₁ : s₁ ≠ [] ∧ Blank s₁)
    (hq : q = ['"'] ∨ q = []) (hname : name ≠ [] ∧ '"' ∉ name ∧ '-' ∉ name)
    (hq' : q' = ['"'] ∨ q' = []) (hs₂ : Blank s₂) :
    ConvertsGroup b
      (Text.of "--" ++ (s ++ (Text.of "subgraph" ++ (s₁ ++ (q ++ (name ++ (q' ++ (s₂ ++
        Text.of "-->")))))))) r
      (Text.of "-- \"" ++ (Text.trim name ++ Text.of "\" -->"))
  | bracketed {b s o s₁ q label q' s₂ c s₃ r : Text} (hs : Blank s) (ho : o = ['['] ∨ o = ['\x7b'])
    (hs₁ : Blank s₁) (hq : q = ['"'] ∨ q = []) (hlabel : '"' ∉ label ∧ ']' ∉ label ∧ '\x7d' ∉ label)
    (hq' : q' = ['"'] ∨ q' = []) (hs₂ : Blank s₂) (hc : c = [']'] ∨ c = ['\x7d']) (hs₃ : Blank s₃) :
    ConvertsGroup b
      (Text.of "--" ++ (s ++ (o ++ (s₁ ++ (q ++ (label ++ (q' ++ (s₂ ++ (c ++ (s₃ ++
        Text.of "-->")))))))))) r
      (Text.of "-- \"" ++ (Text.trim label ++ Text.of "\" -->"))

theorem convertGroupLabels_edits (line : Text) :
    Edits ConvertsGroup [] line (convertGroupLabels line) := by
  refine edits_replaceAll (by decide) (by decide) (fun m hm ↦ .inr ?_) line
  obtain ⟨gs, h, hgs⟩ := hm
  simp only [groupLabelPattern, takes_append_sign, takes_append_blanks, existsAndEq, true_and] at h
  obtain ⟨v, s₃, hu, hs₃, h⟩ := h
  obtain ⟨x, y, g, g', rfl, rfl, hx, hy⟩ := takes_append.mp h
  simp only [takes_append_blanks, takes_separator, existsAndEq, true_and] at hx
  obtain ⟨s, rfl, hs, rfl, -⟩ := hx
  rw [hu]
  rcases takes_or.mp hy with hy | hy
  · simp only [takes_append_opt_sign, takes_append_group, takes_append_blanks1, noneOf,
      takes_many1Lazy_one, takes_sign, existsAndEq, true_and, and_true, and_assoc] at hy
    obtain ⟨q', name, q, s₁, rfl, hq', rfl, hne, hname, hq, hs₁', hs₁⟩ := hy
    simp only [Match.group, hgs, List.append_assoc]
    exact .named hs ⟨hs₁', hs₁⟩ hq ⟨hne, fun h ↦ absurd (hname _ h) (by decide),
      fun h ↦ absurd (hname _ h) (by decide)⟩ hq' hs₃
  · simp only [manyLazy, oneOf, takes_append_one, takes_append_blanks, takes_append_opt_sign,
      takes_append_group, takes_star_noneOf, takes_one, existsAndEq, true_and, and_true,
      and_assoc] at hy
    obtain ⟨c, s₂, q', label, q, s₁, o, rfl, hc, hs₂, hq', rfl, hlabel, hq, hs₁, ho⟩ := hy
    simp only [Match.group, hgs, List.append_assoc]
    exact .bracketed hs (by simpa [among] using ho) hs₁ hq ⟨hlabel _ (by decide),
      hlabel _ (by decide), hlabel _ (by decide)⟩ hq' hs₂ (by simpa [among] using hc) hs₃

/-- The one alternative captures a name and the other one a label. -/
theorem isSome_group?_of_groupLabelPattern {m : Match} (hm : m.Of groupLabelPattern) :
    (m.group? "name").isSome ∨ (m.group? "label").isSome := by
  obtain ⟨gs, h, hgs⟩ := hm
  simp only [groupLabelPattern, takes_append_sign, takes_append_blanks, existsAndEq, true_and] at h
  obtain ⟨v, s₃, -, -, h⟩ := h
  obtain ⟨x, y, g, g', rfl, rfl, -, hy⟩ := takes_append.mp h
  rw [hgs, hgs]
  rcases takes_or.mp hy with hy | hy
  · simp only [takes_append_opt_sign, takes_append_group, existsAndEq, true_and] at hy
    obtain ⟨q', name, g₁, g₂, head, q, -, -, rfl, -⟩ := hy
    exact .inl rfl
  · simp only [oneOf, takes_append_one, takes_append_blanks, takes_append_opt_sign,
      takes_append_group, existsAndEq, true_and] at hy
    obtain ⟨c, s₂, q', label, g₁, g₂, q, head, s₁, -, -, -, -, rfl, hlabel, -, -, ho⟩ := hy
    obtain rfl := hlabel.groups_eq_nil (by decide)
    obtain ⟨-, -, -, rfl⟩ := ho
    exact .inr rfl

theorem unquote_cases (label : Text) :
    unquote label = Text.trim label ∨ Text.trim label = '"' :: (unquote label ++ ['"']) := by
  simp only [unquote]
  split
  · rename_i h
    right
    simp only [Bool.and_eq_true, decide_eq_true_eq, Text.startsWith, Text.endsWith,
      List.isPrefixOf_iff_prefix, List.isSuffixOf_iff_suffix] at h
    obtain ⟨⟨hlen, x, hx⟩, y, hy⟩ := h
    rcases List.eq_nil_or_concat x with rfl | ⟨x, c, rfl⟩
    · simp [← hx] at hlen
    · have hc : c = '"' := by
        have hlast := congrArg List.getLast? (hx.trans hy.symm)
        simpa [List.getLast?_cons] using hlast
      simp [← hx, hc]
  · exact .inl rfl

def SetsOff (b r : Text) : Prop := b.head? ≠ some '-' ∧ r.head? ≠ some '-' ∧ r.head? ≠ some '>'

theorem SetsOff.congr {b b' r t : Text} (h : SetsOff b r) (hb : b'.head? = b.head?)
    (hr : t.head? = r.head?) : SetsOff b' t := by
  rwa [SetsOff, hb, hr]

theorem takes_doubleLabelPattern {b u r : Text} {gs : Groups} :
    doubleLabelPattern.Takes b u r gs ↔ ∃ s first s₁ s₂ second s₃ arrow,
      u = Text.of "--" ++ (s ++ (first ++ (s₁ ++ (Text.of "--" ++
        (s₂ ++ (second ++ (s₃ ++ arrow))))))) ∧
      gs = [("arrow", arrow), ("second", second), ("first", first)] ∧
      Blank s ∧
      IsEitherLabel first (s₁ ++ (Text.of "--" ++ (s₂ ++ (second ++ (s₃ ++ (arrow ++ r)))))) ∧
      Blank s₁ ∧ Blank s₂ ∧ IsEitherLabel second (s₃ ++ (arrow ++ r)) ∧ Blank s₃ ∧
      IsLineArrow arrow ∧ r.head? ≠ some '-' ∧
      SetsOff b
        (s ++ (first ++ (s₁ ++ (Text.of "--" ++ (s₂ ++ (second ++ (s₃ ++ (arrow ++ r)))))))) ∧
      SetsOff ((Text.of "--" ++ (s ++ (first ++ s₁))).reverse ++ b)
        (s₂ ++ (second ++ (s₃ ++ (arrow ++ r)))) := by
  simp only [doubleLabelPattern, lineArrow, takes_append_notDash, takes_append_group,
    takes_append_blanks, takes_eitherLabel, ↓takes_lineArrow, takes_append_separator,
    takes_separator, existsAndEq, true_and, and_assoc, List.append_assoc]
  constructor
  · rintro ⟨hr, arrow, s₃, second, s₂, s₁, first, s, hu, hgs, harrow, hs₃, hsecond, hs₂, hb₁, hr₁,
      hr₁', hs₁, hfirst, hs, hb, hr₀, hr₀'⟩
    exact ⟨s, first, s₁, s₂, second, s₃, arrow, hu, hgs, hs, hfirst, hs₁, hs₂, hsecond, hs₃, harrow,
      hr, ⟨hb, hr₀, hr₀'⟩, hb₁, hr₁, hr₁'⟩
  · rintro ⟨s, first, s₁, s₂, second, s₃, arrow, hu, hgs, hs, hfirst, hs₁, hs₂, hsecond, hs₃,
      harrow, hr, ⟨hb, hr₀, hr₀'⟩, hb₁, hr₁, hr₁'⟩
    exact ⟨hr, arrow, s₃, second, s₂, s₁, first, s, hu, hgs, harrow, hs₃, hsecond, hs₂, hb₁, hr₁,
      hr₁', hs₁, hfirst, hs, hb, hr₀, hr₀'⟩

inductive MergesLabels : (b u r v : Text) → Prop
  | separated {b s first s₁ s₂ second s₃ arrow r : Text} (hs : Blank s)
    (hfirst : IsEitherLabel first
      (s₁ ++ (Text.of "--" ++ (s₂ ++ (second ++ (s₃ ++ (arrow ++ r)))))))
    (hs₁ : Blank s₁) (hs₂ : Blank s₂) (hsecond : IsEitherLabel second (s₃ ++ (arrow ++ r)))
    (hs₃ : Blank s₃) (harrow : IsLineArrow arrow) :
    MergesLabels b
      (Text.of "--" ++ (s ++ (first ++ (s₁ ++ (Text.of "--" ++
        (s₂ ++ (second ++ (s₃ ++ arrow))))))))
      r
      (Text.of "-- \"" ++ (unquote first ++ (Text.of "<br>" ++ (unquote second ++ (Text.of "\" " ++
        arrow)))))
  | piped {b s first s₁ s₂ q second q' r : Text} (hs : Blank s) (hfirst : '"' ∉ first)
    (hs₁ : Blank s₁) (hs₂ : Blank s₂) (hq : q = ['"'] ∨ q = [])
    (hsecond : '"' ∉ second ∧ '|' ∉ second) (hq' : q' = ['"'] ∨ q' = []) :
    MergesLabels b
      (Text.of "--" ++ (s ++ (Text.of "\"" ++ (first ++ (Text.of "\"" ++ (s₁ ++ (Text.of "-->" ++
        (s₂ ++ (Text.of "|" ++ (q ++ (second ++ (q' ++ Text.of "|"))))))))))))
      r
      (Text.of "-- \"" ++ (first ++ (Text.of "<br>(" ++ (Text.trim second ++ Text.of ")\" -->"))))

theorem mergeSeparatedLabels_edits (line : Text) :
    Edits MergesLabels [] line (mergeSeparatedLabels line) := by
  refine edits_replaceAll (by decide) (by decide) (fun m hm ↦ .inr ?_) line
  obtain ⟨gs, h, hgs⟩ := hm
  obtain ⟨s, first, s₁, s₂, second, s₃, arrow, hu, rfl, hs, hfirst, hs₁, hs₂, hsecond, hs₃, harrow,
    -⟩ := takes_doubleLabelPattern.mp h
  rw [hu]
  simp only [Match.group, hgs, List.append_assoc]
  exact .separated hs hfirst hs₁ hs₂ hsecond hs₃ harrow

theorem mergePipeLabels_edits (line : Text) :
    Edits MergesLabels [] line (mergePipeLabels line) := by
  refine edits_replaceAll (by decide) (by decide) (fun m hm ↦ .inr ?_) line
  obtain ⟨gs, h, hgs⟩ := hm
  simp only [labelThenPipePattern, many, takes_append_sign, takes_append_opt_sign,
    takes_append_group, takes_append_blanks, takes_star_noneOf, takes_sign, existsAndEq, and_true,
    true_and, and_assoc, List.append_assoc] at h
  obtain ⟨q', second, q, s₂, s₁, first, s, hu, hq', rfl, hsecond, hq, hs₂, hs₁, hfirst, hs⟩ := h
  rw [hu]
  simp only [Match.group, hgs, List.append_assoc]
  exact .piped hs (hfirst _ (by decide)) hs₁ hs₂ hq ⟨hsecond _ (by decide), hsecond _ (by decide)⟩
    hq'

inductive PromotesDash : (b u r v : Text) → Prop
  | mk {b s target s' s'' r : Text} (hs : Blank s) (htarget : IsNodeReference target)
    (hs' : Blank s') (hs'' : Blank s'') (hr : r = [] ∨ r = ['\n']) :
    PromotesDash b (Text.of "--" ++ (s ++ (target ++ (s' ++ (Text.of ";" ++ s''))))) r
      (Text.of "-->" ++ (s ++ (target ++ (s' ++ (Text.of ";" ++ s'')))))

theorem promoteDoubleDash_edits (line : Text) :
    Edits PromotesDash [] line (promoteDoubleDash line) := by
  refine edits_replaceAll (by decide) (by decide) (fun m hm ↦ .inr ?_) line
  obtain ⟨gs, h, hgs⟩ := hm
  simp only [trailingDoubleDashPattern, takes_append_lastLineEnd, takes_append_group,
    takes_append_blanks, takes_append_sign, takes_nodeReference, takes_blanks, takes_separator,
    existsAndEq, true_and, and_assoc, List.append_assoc] at h
  obtain ⟨hr, s'', s', target, s, hu, rfl, hs'', hs', htarget, hs, -⟩ := h
  rw [hu]
  simp only [Match.group, hgs, List.append_assoc]
  exact .mk hs htarget hs' hs'' hr

inductive QuotesBarLabel : (b u r v : Text) → Prop
  | mk {b arrow s label r : Text} (harrow : IsArrow arrow) (hs : Blank s)
    (hlabel : label ≠ [] ∧ '"' ∉ label ∧ '|' ∉ label) :
    QuotesBarLabel b (arrow ++ (s ++ (Text.of "|" ++ (label ++ Text.of "|")))) r
      (arrow ++ (s ++ (Text.of "|\"" ++ (label ++ Text.of "\"|"))))

theorem quotePipeLabels_edits (line : Text) :
    Edits QuotesBarLabel [] line (Line.quotePipeLabels line) := by
  refine edits_replaceAll (by decide) (by decide) (fun m hm ↦ .inr ?_) line
  obtain ⟨gs, h, hgs⟩ := hm
  have hlabel : ∀ b u r gs, (noneOf "\"|" ++ manyLazy (noneOf "\"|")).Takes b u r gs ↔
      (u ≠ [] ∧ ∀ c ∈ u, !among "\"|" c) ∧ gs = [] := fun _ _ _ _ ↦ takes_many1Lazy_one
  simp only [Line.pipeLabelPattern, takes_append_group, takes_group, ↓takes_arrow,
    takes_append_sign, takes_blanks, ↓hlabel, existsAndEq, and_true, true_and, and_assoc,
    List.append_assoc] at h
  obtain ⟨label, s, arrow, hu, rfl, hne, hlabel, hs, harrow⟩ := h
  rw [hu]
  simp only [Match.group, hgs, List.append_assoc]
  exact .mk harrow hs ⟨hne, fun h ↦ absurd (hlabel _ h) (by decide),
    fun h ↦ absurd (hlabel _ h) (by decide)⟩

inductive EdgeLabel : (b u label arrow : Text) → Prop
  | mk {b s label s' arrow : Text} (hs : Blank s) (hlabel : IsOpenLabel label (s' ++ arrow))
    (hs' : Blank s') (harrow : IsLineArrow arrow) (hb : SetsOff b (s ++ label)) :
    EdgeLabel b (Text.of "--" ++ (s ++ (label ++ (s' ++ arrow)))) label arrow

theorem takes_edgeLabelPattern {b u r : Text} {gs : Groups} :
    edgeLabelPattern.Takes b u r gs ↔ r.head? ≠ some '-' ∧
      ∃ label arrow, EdgeLabel b u label arrow ∧ gs = [("arrow", arrow), ("label", label)] := by
  simp only [edgeLabelPattern, lineArrow, takes_append_notDash, takes_append_group,
    ↓takes_lineArrow, takes_append_blanks, takes_openLabel, takes_separator, existsAndEq, true_and,
    and_assoc, List.append_assoc]
  refine and_congr_right fun _ ↦ ?_
  constructor
  · rintro ⟨arrow, s', label, s, rfl, rfl, harrow, hs', hlabel, hs, hb⟩
    refine ⟨label, arrow, .mk hs (hlabel.congr ?_) hs' harrow (SetsOff.congr hb rfl ?_), rfl⟩
    · rw [harrow.head_append]
    · rw [hlabel.head_append]
  · rintro ⟨label, arrow, ⟨hs, hlabel, hs', harrow, hb⟩, rfl⟩
    refine ⟨arrow, _, label, _, rfl, rfl, harrow, hs', hlabel.congr ?_, hs, SetsOff.congr hb rfl ?_⟩
    · rw [harrow.head_append]
    · rw [hlabel.head_append]

def needsQuotes (label : Text) : Bool :=
  label.any isPunctuation && (labelledNode.fullMatch? label).isNone

def quotedEdge (label arrow : Text) : Text :=
  Text.of "-- \"" ++ Text.trim label ++ Text.of "\" " ++ arrow

def quoteEdgeLabel (m : Match) : Text :=
  let label := Text.trim (m.group "label")
  if !label.any isPunctuation || (labelledNode.fullMatch? label).isSome then m.whole
  else Text.of "-- \"" ++ label ++ Text.of "\" " ++ m.group "arrow"

theorem quoteEdgeLabel_eq {m : Match} (hm : m.Of edgeLabelPattern) : ∃ label arrow,
    EdgeLabel m.before m.whole label arrow ∧ m.after.head? ≠ some '-' ∧ quoteEdgeLabel m =
      if needsQuotes (Text.trim label) then quotedEdge label arrow else m.whole := by
  obtain ⟨gs, htakes, hgs⟩ := hm
  obtain ⟨hafter, label, arrow, hedge, rfl⟩ := takes_edgeLabelPattern.mp htakes
  have hlabel : m.group "label" = label := by
    rw [Match.group, hgs]
    rfl
  have harrow : m.group "arrow" = arrow := by
    rw [Match.group, hgs]
    rfl
  refine ⟨label, arrow, hedge, hafter, ?_⟩
  rw [quoteEdgeLabel, hlabel, harrow, needsQuotes, quotedEdge]
  cases (Text.trim label).any isPunctuation <;>
    cases labelledNode.fullMatch? (Text.trim label) <;> rfl

inductive QuotesEdgeLabel : (b u r v : Text) → Prop
  | mk {b s label s' arrow r : Text} (hs : Blank s)
    (hlabel : IsOpenLabel label (s' ++ (arrow ++ r))) (hs' : Blank s') (harrow : IsLineArrow arrow)
    (hpunctuation : ∃ c ∈ Text.trim label, isPunctuation c) :
    QuotesEdgeLabel b (Text.of "--" ++ (s ++ (label ++ (s' ++ arrow)))) r
      (Text.of "-- \"" ++ (Text.trim label ++ (Text.of "\" " ++ arrow)))

theorem quoteEdgeLabels_edits (line : Text) :
    Edits QuotesEdgeLabel [] line (quoteEdgeLabels line) := by
  refine edits_replaceAll (f := quoteEdgeLabel) (by decide) (by decide) (fun m hm ↦ ?_) line
  obtain ⟨label, arrow, hedge, -, hquoted⟩ := quoteEdgeLabel_eq hm
  rw [hquoted]
  split
  · rename_i hneeds
    generalize m.whole = u at hedge ⊢
    obtain ⟨hs, hlabel, hs', harrow, -⟩ := hedge
    rw [needsQuotes, Bool.and_eq_true, List.any_eq_true] at hneeds
    rw [quotedEdge, List.append_assoc, List.append_assoc]
    refine .inr (.mk hs (hlabel.congr ?_) hs' harrow hneeds.1)
    rw [harrow.head_append]
  · exact .inl rfl

end DiagramRepair.Rule
