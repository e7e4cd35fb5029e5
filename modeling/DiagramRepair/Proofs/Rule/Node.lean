import DiagramRepair.Proofs.Rule.Glued
import Mathlib.Tactic.SplitIfs

namespace DiagramRepair.Rule

open Pattern

def IsLabelledNode (u : Text) : Prop :=
  ∃ id label, u = id ++ label ∧ IsIdent id ∧ IsSquareLabel label

theorem takes_labelledNode {b u r : Text} {gs : Groups} :
    labelledNode.Takes b u r gs ↔ IsLabelledNode u ∧ gs = [] := by
  rw [labelledNode, takes_append]
  simp only [takes_ident, takes_squareLabel, existsAndEq, and_true, IsLabelledNode]
  constructor
  · rintro ⟨id, label, rfl, rfl, hid, hlabel⟩
    exact ⟨⟨id, label, rfl, hid, hlabel⟩, rfl⟩
  · rintro ⟨⟨id, label, rfl, hid, hlabel⟩, rfl⟩
    exact ⟨id, label, rfl, rfl, hid, hlabel⟩

inductive SplitsEdge : Text → Text → Prop
  | mk {indent source s s₁ middle s₂ arrow s₃ target s₄ e : Text} (hindent : Blank indent)
    (hsource : source ≠ [] ∧ '\n' ∉ source) (hs : s ≠ [] ∧ Blank s) (hs₁ : s₁ ≠ [] ∧ Blank s₁)
    (hmiddle : IsLabelledNode middle) (hs₂ : s₂ ≠ [] ∧ Blank s₂) (harrow : IsLineArrow arrow)
    (hs₃ : s₃ ≠ [] ∧ Blank s₃) (htarget : target ≠ [] ∧ '\n' ∉ target) (hs₄ : Blank s₄)
    (he : e = [] ∨ e = ['\n']) :
    SplitsEdge
      (indent ++ (source ++ (s ++ (Text.of "--" ++ (s₁ ++ (middle ++ (s₂ ++ (arrow ++ (s₃ ++
        (target ++ (s₄ ++ e)))))))))))
      (indent ++ (source ++ (Text.of " --> " ++ (middle ++
        '\n' :: (indent ++ (middle ++ ' ' :: (arrow ++ ' ' :: target)))))))

theorem splitIntermediateNodes_cases (line : Text) :
    splitIntermediateNodes line = line ∨ SplitsEdge line (splitIntermediateNodes line) := by
  rw [splitIntermediateNodes]
  split
  · exact .inl rfl
  · rename_i m hm
    obtain ⟨⟨gs, h, hgs⟩, -, hline⟩ := of_match? (by decide) hm
    simp only [intermediateNodePattern, lineArrow, takes_append_lastLineEnd, takes_append_blanks,
      takes_append_group, takes_many1Lazy_any, takes_append_blanks1, ↓takes_lineArrow,
      takes_labelledNode, takes_append_sign, takes_blanks, takes_textStart, existsAndEq, and_true,
      true_and, and_assoc, List.append_assoc, List.nil_append] at h
    obtain ⟨he, s₄, target, s₃, arrow, s₂, middle, s₁, s, source, indent, hu, hs₄, rfl, htarget,
      htarget', hs₃', hs₃, harrow, hs₂', hs₂, hmiddle, hs₁', hs₁, hs', hs, hsource, hsource',
      hindent, -⟩ := h
    rw [hline, hu]
    simp only [Match.group, hgs, List.append_assoc, List.cons_append]
    exact .inr (.mk hindent ⟨hsource, hsource'⟩ ⟨hs', hs⟩ ⟨hs₁', hs₁⟩ hmiddle ⟨hs₂', hs₂⟩ harrow
      ⟨hs₃', hs₃⟩ ⟨htarget, htarget'⟩ hs₄ he)

def IsLabelledArrow (u : Text) : Prop :=
  IsLineArrow u ∨ ∃ s x s', u = Text.of "--" ++ (s ++ (Text.of "\"" ++ (x ++ (Text.of "\"" ++ (s' ++
    Text.of "-->"))))) ∧ Blank s ∧ '"' ∉ x ∧ Blank s'

theorem takes_labelledArrow {b u r : Text} {gs : Groups} :
    (sign "---" ||| sign "-->" ||| sign "--" ++ blanks ++ sign "\"" ++ star true (noneOf "\"") ++
      sign "\"" ++ blanks ++ sign "-->").Takes b u r gs ↔ IsLabelledArrow u ∧ gs = [] := by
  simp only [takes_or, takes_append_sign, takes_append_blanks, takes_append_star_noneOf,
    takes_sign, existsAndEq, true_and, List.append_assoc, IsLabelledArrow, IsLineArrow]
  constructor
  · rintro ((⟨hu, hgs⟩ | ⟨hu, hgs⟩) | ⟨s', x, s, hu, hs', hx, hs, hgs⟩)
    · exact ⟨.inl (.inr hu), hgs⟩
    · exact ⟨.inl (.inl hu), hgs⟩
    · exact ⟨.inr ⟨s, x, s', hu, hs, hx _ (by decide), hs'⟩, hgs⟩
  · rintro ⟨(hu | hu) | ⟨s, x, s', hu, hs, hx, hs'⟩, hgs⟩
    · exact .inl (.inr ⟨hu, hgs⟩)
    · exact .inl (.inl ⟨hu, hgs⟩)
    · refine .inr ⟨s', x, s, hu, hs', fun c hc ↦ ?_, hs, hgs⟩
      obtain rfl := List.mem_singleton.mp hc
      exact hx

inductive WrapsLabel : (b u r v : Text) → Prop
  | mk {b head id content r : Text} (hhead : IsHead IsLabelledArrow head) (hid : IsIdent id)
    (hcontent : ∀ c ∈ "[];\n".toList, c ∉ content) (hlabel : Text.trim content ≠ []) :
    WrapsLabel b (head ++ (id ++ (content ++ Text.of ";"))) r
      (head ++ (id ++ (Text.of "[\"" ++ (Text.dropQuotes (Text.trim content) ++
        (Text.of "\"]" ++ Text.of ";")))))

theorem wrapMissingBrackets_edits (line : Text) :
    Edits WrapsLabel [] line (wrapMissingBrackets line) := by
  refine edits_replaceAll (by decide) (by decide) (fun m hm ↦ ?_) line
  obtain ⟨gs, h, hgs⟩ := hm
  simp only [missingBracketPattern, many1, many, takes_append_group, takes_group, takes_sign,
    takes_many1_noneOf_singleDash (s := "[];\n-") (by decide), takes_append_notAhead, takes_ident,
    ↓takes_head (fun _ _ _ _ ↦ takes_labelledArrow), existsAndEq, true_and, and_true, and_assoc,
    List.append_assoc] at h
  obtain ⟨content, id, head, hu, rfl, -, hcontent, -, -, hid, hhead⟩ := h
  have hcontent' : m.group "content" = content := by
    rw [Match.group, hgs]
    rfl
  simp only [hcontent']
  split
  · exact .inl rfl
  · rename_i hlabel
    rw [hu]
    simp only [Match.group, hgs, List.append_assoc]
    have hmem : ∀ c ∈ "[];\n".toList, c ∈ "[];\n-".toList ∧ c ≠ '-' := by decide
    have hne : Text.trim content ≠ [] := by simp_all
    exact .inr (.mk hhead hid (fun c hc ↦ hcontent c (hmem c hc).1 (hmem c hc).2) hne)

inductive OpensBracket : (b u r v : Text) → Prop
  | mk {b brackets r : Text} (hbrackets : ∀ c ∈ brackets, c = '[') :
    OpensBracket b (Text.of "[" ++ (brackets ++ Text.of "\"")) r (Text.of "[\"")

inductive ClosesBracket : (b u r v : Text) → Prop
  | mk {b brackets r : Text} (hbrackets : ∀ c ∈ brackets, c = ']') :
    ClosesBracket b (Text.of "\"]" ++ brackets) r (Text.of "\"]")

theorem forall_eq_of_takes_many1_sign {s : String} {c : Char} (hs : s.toList = [c])
    {b u r : Text} {gs : Groups} (h : (many1 (sign s)).Takes b u r gs) : ∀ d ∈ u, d = c := by
  have hsign : ∀ b u r gs, (sign s).Takes b u r gs ↔ u = [c] ∧ gs = [] := by
    intro b u r gs
    rw [takes_sign, hs]
  have hsome : (sign s).takesSome := by
    rw [sign, hs]
    rfl
  obtain ⟨-, h⟩ := (takes_append_star_self hsome).mp h
  obtain ⟨⟨us, rfl, hus⟩, -⟩ := (takes_star_of hsign).mp h
  intro d hd
  obtain ⟨v, hv, hd⟩ := List.mem_flatten.mp hd
  rw [hus v hv] at hd
  exact List.mem_singleton.mp hd

theorem fixExcessiveBrackets_edits (line : Text) :
    ∃ t, Edits OpensBracket [] line t ∧ Edits ClosesBracket [] t (fixExcessiveBrackets line) := by
  refine ⟨_, edits_replaceAll (by decide) (by decide) (fun m hm ↦ .inr ?_) line,
    edits_replaceAll (by decide) (by decide) (fun m hm ↦ .inr ?_) _⟩
  · obtain ⟨gs, h, -⟩ := hm
    obtain ⟨u, hu, h⟩ := takes_append_sign.mp h
    obtain ⟨v, w, _, _, rfl, -, hv, hw⟩ := takes_append.mp h
    obtain ⟨rfl, -⟩ := takes_sign.mp hv
    rw [hu, List.append_assoc]
    exact .mk (forall_eq_of_takes_many1_sign rfl hw)
  · obtain ⟨gs, h, -⟩ := hm
    obtain ⟨v, w, _, _, hu, -, hv, hw⟩ := takes_append.mp h
    obtain ⟨rfl, -⟩ := takes_sign.mp hv
    rw [hu]
    exact .mk (forall_eq_of_takes_many1_sign rfl hw)

def IsQuotedLabel (u : Text) : Prop := ∃ x, u = Text.of "[\"" ++ (x ++ Text.of "\"]") ∧ '"' ∉ x

theorem takes_quotedBracketLabel {b u r : Text} {gs : Groups} :
    quotedBracketLabel.Takes b u r gs ↔ IsQuotedLabel u ∧ gs = [] := by
  simp only [quotedBracketLabel, many, takes_append_sign, takes_append_star_noneOf, takes_sign,
    existsAndEq, true_and, List.append_assoc, IsQuotedLabel]
  constructor
  · rintro ⟨x, hu, hx, hgs⟩
    exact ⟨⟨x, hu, hx _ (by decide)⟩, hgs⟩
  · rintro ⟨⟨x, hu, hx⟩, hgs⟩
    refine ⟨x, hu, fun c hc ↦ ?_, hgs⟩
    obtain rfl := List.mem_singleton.mp hc
    exact hx

theorem IsQuotedLabel.eq_of_suffix {u v : Text} (hu : IsQuotedLabel u) (hv : IsQuotedLabel v)
    (h : u <:+ v) : u = v := by
  obtain ⟨x, rfl, hx⟩ := hu
  obtain ⟨y, rfl, hy⟩ := hv
  obtain ⟨p, hp⟩ := h
  change p ++ '[' :: '"' :: (x ++ ['"', ']']) = '[' :: '"' :: (y ++ ['"', ']']) at hp
  rcases p with _ | ⟨c, _ | ⟨d, p⟩⟩
  · exact hp
  · simp at hp
  · have htail := (List.cons.inj (List.cons.inj hp).2).2
    replace htail : p ++ '[' :: '"' :: x ++ ['"', ']'] = y ++ ['"', ']'] :=
      (List.append_assoc _ _ _).trans htail
    have hmid : p ++ '[' :: '"' :: x = y := List.append_cancel_right htail
    exact absurd (by simp [← hmid]) hy

/-- The last label is found by its end, so it does not matter how the labels before it look. -/
theorem lastLabel_append {labels label : Text} (hlabel : IsQuotedLabel label) :
    lastLabel (labels ++ label) = label := by
  rw [lastLabel]
  cases hm : (quotedBracketLabel ++ lastLineEnd).search? (labels ++ label) with
  | none =>
    have ht : labels ++ label = labels ++ (label ++ []) := by simp
    refine absurd ?_ (search?_eq_none (by decide) hm ht [])
    rw [takes_append_lastLineEnd, takes_quotedBracketLabel]
    exact ⟨.inl rfl, hlabel, rfl⟩
  | some m =>
    obtain ⟨⟨gs, h, -⟩, ht⟩ := of_search? (by decide) hm
    rw [takes_append_lastLineEnd, takes_quotedBracketLabel] at h
    obtain ⟨hafter | hafter, hwhole, -⟩ := h
    · rw [hafter, List.append_nil] at ht
      have hsuffix : m.whole <:+ labels ++ label := ⟨_, ht.symm⟩
      rcases List.suffix_or_suffix_of_suffix hsuffix (List.suffix_append labels label) with h | h
      · exact hwhole.eq_of_suffix hlabel h
      · exact (hlabel.eq_of_suffix hwhole h).symm
    · obtain ⟨x, rfl, -⟩ := hlabel
      have hlabels : labels ++ (Text.of "[\"" ++ (x ++ Text.of "\"]")) =
          labels ++ '[' :: '"' :: (x ++ ['"']) ++ [']'] := by
        simp [Text.of]
      have hlast := congrArg List.getLast? ht
      rw [hafter, hlabels, ← List.append_assoc, List.getLast?_concat, List.getLast?_concat] at hlast
      simp at hlast

inductive CollapsesLabels : (b u r v : Text) → Prop
  | mk {b id : Text} {labels : List Text} {label r : Text} (hid : IsIdent id) (hne : labels ≠ [])
    (hlabels : ∀ l ∈ labels, IsQuotedLabel l) (hlabel : IsQuotedLabel label) :
    CollapsesLabels b (id ++ (labels.flatten ++ label)) r (id ++ label)

theorem of_duplicateLabelsPattern {m : Match} (hm : m.Of duplicateLabelsPattern) :
    ∃ labels label, labels ≠ [] ∧ (∀ l ∈ labels, IsQuotedLabel l) ∧ IsQuotedLabel label ∧
      IsIdent (m.group "id") ∧ m.group "labels" = labels.flatten ++ label ∧
      m.whole = m.group "id" ++ (labels.flatten ++ label) := by
  obtain ⟨gs, h, hgs⟩ := hm
  have hstar : ∀ b u r gs, (many quotedBracketLabel).Takes b u r gs ↔
      (∃ us : List Text, u = us.flatten ∧ ∀ v ∈ us, IsQuotedLabel v) ∧ gs = [] :=
    fun _ _ _ _ ↦ takes_star_of (fun _ _ _ _ ↦ takes_quotedBracketLabel)
  simp only [duplicateLabelsPattern, many1, takes_group, takes_append, hstar,
    takes_quotedBracketLabel, takes_ident, existsAndEq, true_and, and_true, and_assoc,
    List.append_nil] at h
  obtain ⟨id, label₁, label₂, us, hu, rfl, hid, hlabel₁, hlabel₂, hus⟩ := h
  have hsnoc : ∃ us' label, label₁ :: label₂ :: us = label₁ :: us' ++ [label] := by
    rcases List.eq_nil_or_concat us with rfl | ⟨us, label, rfl⟩
    · exact ⟨[], label₂, rfl⟩
    · exact ⟨label₂ :: us, label, by simp⟩
  obtain ⟨us', label, hsnoc⟩ := hsnoc
  have hall : ∀ l ∈ label₁ :: us' ++ [label], IsQuotedLabel l := by
    rw [← hsnoc]
    simpa using ⟨hlabel₁, hlabel₂, hus⟩
  have hflatten : label₁ ++ (label₂ ++ us.flatten) = (label₁ :: us').flatten ++ label := by
    simpa using congrArg List.flatten hsnoc
  rw [hflatten] at hu
  rw [Match.group, Match.group, hgs, hgs, hflatten]
  exact ⟨label₁ :: us', label, by simp, fun l hl ↦ hall l (List.mem_append_left _ hl),
    hall label (by simp), hid, rfl, hu⟩

/-- The last of a run of labels is always found. -/
theorem isSome_search?_labels {m : Match} (hm : m.Of duplicateLabelsPattern) :
    ((quotedBracketLabel ++ lastLineEnd).search? (m.group "labels")).isSome := by
  obtain ⟨labels, label, -, -, hlabel, -, hlabels, -⟩ := of_duplicateLabelsPattern hm
  have hlast : lastLabel (labels.flatten ++ label) = label := lastLabel_append hlabel
  rw [hlabels]
  cases hsearch : (quotedBracketLabel ++ lastLineEnd).search? (labels.flatten ++ label) with
  | some _ => rfl
  | none =>
    rw [lastLabel, hsearch] at hlast
    obtain ⟨x, rfl, -⟩ := hlabel
    simp [Text.of] at hlast

theorem collapseDuplicateLabels_edits (line : Text) :
    Edits CollapsesLabels [] line (collapseDuplicateLabels line) := by
  refine edits_replaceAll (by decide) (by decide) (fun m hm ↦ .inr ?_) line
  obtain ⟨labels, label, hne, hall, hlabel, hid, hlabels, hwhole⟩ := of_duplicateLabelsPattern hm
  rw [hlabels, hwhole, lastLabel_append hlabel]
  exact .mk hid hne hall hlabel

/-- The label gets quotes; a terminator at its end moves behind it. -/
inductive QuotesLabel : (b u r v : Text) → Prop
  | plain {b id content r : Text} (hid : IsIdent id) (hcontent : '[' ∉ content ∧ ']' ∉ content) :
    QuotesLabel b (id ++ (Text.of "[" ++ (content ++ Text.of "]"))) r
      (id ++ (Text.of "[\"" ++ (Text.trim (Text.dropQuotes content) ++ Text.of "\"]")))
  | terminated {b id content s r : Text} (hid : IsIdent id)
    (hcontent : '[' ∉ content ∧ ']' ∉ content) (hs : Blank s) :
    QuotesLabel b (id ++ (Text.of "[" ++ (content ++ (Text.of ";" ++ (s ++ Text.of "]"))))) r
      (id ++ (Text.of "[\"" ++ (Text.trim (Text.dropQuotes content) ++ (Text.of "\"]" ++
        Text.of ";"))))

theorem quoteLabel_cases {b id content r : Text} (hid : IsIdent id)
    (hcontent : '[' ∉ content ∧ ']' ∉ content) :
    QuotesLabel b (id ++ (Text.of "[" ++ (content ++ Text.of "]"))) r (quoteLabel id content) := by
  simp only [quoteLabel]
  split
  · rename_i hend
    simp only [Text.endsWith, List.isSuffixOf_iff_suffix] at hend
    obtain ⟨x, hx⟩ := hend
    obtain ⟨s, hs, hblank⟩ := Text.exists_trimEnd content
    rw [← hx] at hs
    have hsub : ∀ c ∈ x, c ∈ content := by
      intro c hc
      rw [hs]
      simp [hc]
    rw [← hx, List.dropLast_concat, hs]
    simp only [List.append_assoc]
    exact .terminated hid ⟨mt (hsub _) hcontent.1, mt (hsub _) hcontent.2⟩ hblank
  · simp only [List.append_assoc, List.append_nil]
    exact .plain hid hcontent

theorem quoteUnsafeNodeLabels_edits (line : Text) :
    Edits QuotesLabel [] line (quoteUnsafeNodeLabels line) := by
  refine edits_replaceAll (by decide) (by decide) (fun m hm ↦ ?_) line
  obtain ⟨gs, h, hgs⟩ := hm
  simp only [unquotedLabelPattern, many, takes_append_notAhead, takes_append_sign,
    takes_append_group, takes_star_noneOf, takes_ident, notPrecededBy, takes_place, existsAndEq,
    true_and, and_assoc, List.append_assoc, List.nil_append] at h
  obtain ⟨-, content, id, hu, rfl, hcontent, -, hid, -⟩ := h
  have hid' : m.group "id" = id := by
    rw [Match.group, hgs]
    rfl
  have hcontent' : m.group "content" = content := by
    rw [Match.group, hgs]
    rfl
  simp only [hid', hcontent']
  split
  · exact .inl rfl
  · rw [hu]
    exact .inr (quoteLabel_cases hid ⟨hcontent _ (by decide), hcontent _ (by decide)⟩)

end DiagramRepair.Rule
