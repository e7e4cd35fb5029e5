import DiagramRepair.Proofs.Flowchart.Spelling
import DiagramRepair.Proofs.Rule.Arrow
import DiagramRepair.Proofs.Placeholder.Hiding
import DiagramRepair.Proofs.Line.Strip

namespace DiagramRepair.Flowchart

open Pattern Rule Registry

variable {c : Char} {l s t u x : Text}

/-- Every quote opens or closes a label: in brackets, or behind a blank or a bar. -/
inductive Quoted : Text → Prop
  | nil : Quoted []
  | plain {c : Char} {t : Text} (hc : c ≠ '"' ∧ c ≠ '[' ∧ c ≠ ']') : Quoted t → Quoted (c :: t)
  | bracketed {x t : Text} (hx : ∀ c ∈ x, isLabelChar c) :
      Quoted t → Quoted ('[' :: '"' :: (x ++ '"' :: ']' :: t))
  | standing {c : Char} {x t : Text} (hc : c = ' ' ∨ c = '|') (hx : ∀ c ∈ x, isLabelChar c) :
      Quoted t → Quoted (c :: '"' :: (x ++ '"' :: t))

theorem Quoted.append_plain (hu : ∀ c ∈ u, c ≠ '"' ∧ c ≠ '[' ∧ c ≠ ']') (h : Quoted t) :
    Quoted (u ++ t) := by
  induction u with
  | nil => exact h
  | cons c u ih => exact .plain (hu c (by simp)) (ih fun d hd ↦ hu d (by simp [hd]))

theorem Quoted.append_sign {s : String} (hs : ∀ c ∈ s.toList, c ≠ '"' ∧ c ≠ '[' ∧ c ≠ ']')
    (h : Quoted t) : Quoted (Text.of s ++ t) := h.append_plain hs

theorem quoted_name (name : Name) (h : Quoted t) : Quoted (name.text ++ t) := by
  refine h.append_plain fun c hc ↦ ?_
  have hc := name.alphanum c hc
  exact ⟨ne_of_class hc (by decide), ne_of_class hc (by decide), ne_of_class hc (by decide)⟩

theorem quoted_label (label : Label) (h : Quoted t) : Quoted (label.bracketed ++ t) := by
  have hbracketed := Quoted.bracketed label.plain h
  simpa [Label.bracketed, Text.of] using hbracketed

theorem quoted_ref (r : Ref) (h : Quoted t) : Quoted (r.text ++ t) := by
  rw [Ref.text, List.append_assoc]
  refine quoted_name r.name ?_
  cases r.label? with
  | none => exact h
  | some label => exact quoted_label label h

theorem quoted_connector (k : Connector) (h : Quoted t) : Quoted (k.text ++ t) := by
  cases k with
  | bare => exact h.append_sign (by decide)
  | piped label =>
    have hlabel := Quoted.standing (.inr rfl) label.plain (h.append_sign (s := "| ") (by decide))
    simpa [Connector.text, Text.of] using hlabel.append_sign (s := " -->") (by decide)
  | quoted label =>
    have hlabel := Quoted.standing (.inl rfl) label.plain (h.append_sign (s := " --> ") (by decide))
    simpa [Connector.text, Text.of] using hlabel.append_sign (s := " --") (by decide)

theorem quoted_form (form : Form) (h : Quoted t) : Quoted (form.text ++ t) := by
  cases form with
  | node name label =>
    rw [Form.text, List.append_assoc]
    exact quoted_name name (quoted_label label h)
  | edge source connector target =>
    rw [Form.text, List.append_assoc, List.append_assoc]
    exact quoted_ref source (quoted_connector connector (quoted_ref target h))
  | reversed left right =>
    rw [Form.text, List.append_assoc, List.append_assoc]
    exact quoted_ref left ((quoted_ref right h).append_sign (by decide))

theorem Statement.quoted (s : Statement) : Quoted s.text := by
  have hending : Quoted s.ending := by
    rw [Statement.ending]
    split
    · exact .plain (by decide) .nil
    · exact .nil
  refine (quoted_form s.form hending).append_plain fun c hc ↦ ?_
  rw [(List.mem_replicate.mp hc).2]
  decide

theorem quoted_header : Quoted header := by
  simpa [header] using Quoted.nil.append_sign (s := "graph TD") (by decide)

theorem quote_not_mem (hx : ∀ c ∈ x, isLabelChar c) : '"' ∉ x := not_mem_of_class hx (by decide)

theorem bracketQuotedFrom_eq (h : Quoted t) (prev : Option Char) :
    Line.bracketQuotedFrom (.plain 0) prev t = t := by
  induction h generalizing prev with
  | nil => rfl
  | plain hc _ ih =>
    simp [Line.bracketQuotedFrom, hc, ih]
  | bracketed hx _ ih =>
    simp [Line.bracketQuotedFrom, Line.bracketQuotedFrom_quoted (quote_not_mem hx), ih]
  | @standing c x t hc hx _ ih =>
    have hopens : Line.opensGluedLabel (some c) (x ++ '"' :: t) = false := by
      have hword : Line.isIdentifierChar c = false := by rcases hc with rfl | rfl <;> decide
      simp [Line.opensGluedLabel, hword]
    have hsign : c ≠ '"' ∧ c ≠ '[' ∧ c ≠ ']' := by rcases hc with rfl | rfl <;> decide
    simp [Line.bracketQuotedFrom, hsign, hopens, Line.bracketQuotedFrom_quoted (quote_not_mem hx), ih]

theorem bracketQuotedLabels_eq (h : Quoted l) : Line.bracketQuotedLabels l = l :=
  bracketQuotedFrom_eq h none

theorem stripInnerQuotesFrom_append (hu : '[' ∉ u) :
    stripInnerQuotesFrom 0 (u ++ t) = u ++ stripInnerQuotesFrom 0 t := by
  induction u with
  | nil => rfl
  | cons c u ih =>
    rw [List.mem_cons, not_or] at hu
    have hnone : quotedLabel? (c :: (u ++ t)) = none := by
      rw [quotedLabel?]
      rintro t' heq
      exact absurd (List.cons.inj heq).1.symm hu.1
    rw [List.cons_append, stripInnerQuotesFrom, hnone, ih hu.2]
    rfl

theorem quotedLabel?_bracketed (hx : ∀ c ∈ x, isLabelChar c) :
    quotedLabel? ('[' :: '"' :: (x ++ '"' :: ']' :: t)) = some (x.length + 3) := by
  have hboxed : Line.Boxed ('"' :: (x ++ ['"'])) := by
    have hplain : ∀ c ∈ '"' :: (x ++ ['"']), c ≠ '[' ∧ c ≠ ']' := by
      intro c hc
      rcases (by simpa using hc : c = '"' ∨ c ∈ x ∨ c = '"') with rfl | hc | rfl
      · decide
      · exact ⟨ne_of_class (hx c hc) (by decide), ne_of_class (hx c hc) (by decide)⟩
      · decide
    simpa using Line.Grouped.plain_append hplain .nil
  have hclosing : Brackets.square.closing? ('[' :: '"' :: (x ++ '"' :: ']' :: t)) =
      some (x.length + 3) := by
    simpa using Line.closing?_boxed hboxed t
  simp [quotedLabel?, hclosing]

theorem stripInnerQuotes_eq (h : Quoted l) : stripInnerQuotes l = l := by
  rw [stripInnerQuotes]
  induction h with
  | nil => rfl
  | @plain c t hc _ ih =>
    have hskip := stripInnerQuotesFrom_append (t := t) (u := [c]) (by simpa using Ne.symm hc.2.1)
    rwa [ih] at hskip
  | @bracketed x t hx _ ih =>
    have htake : ('[' :: '"' :: (x ++ '"' :: ']' :: t)).take (x.length + 3 + 1) =
        '[' :: '"' :: (x ++ ['"', ']']) := by
      have hsplit : '[' :: '"' :: (x ++ '"' :: ']' :: t) =
          '[' :: '"' :: (x ++ ['"', ']']) ++ t := by simp
      rw [hsplit, List.take_left' (by simp)]
    have hlabel :
        plainLabel ('[' :: '"' :: (x ++ ['"', ']'])) = '[' :: '"' :: (x ++ ['"', ']']) := by
      have hquotes : x.filter (· != '"') = x := by
        rw [List.filter_eq_self]
        exact fun c hc ↦ bne_iff_ne.mpr (ne_of_class (hx c hc) (by decide))
      simp [plainLabel, Text.dropQuotes, hquotes]
    have hskip : stripInnerQuotesFrom (x.length + 3) ('"' :: (x ++ '"' :: ']' :: t)) = t := by
      have hrest := stripInnerQuotesFrom_skip ('"' :: (x ++ ['"', ']'])) t rfl
      rw [ih] at hrest
      simpa using hrest
    rw [stripInnerQuotesFrom, quotedLabel?_bracketed hx]
    simp only [htake, hlabel, hskip]
    simp
  | @standing c x t hc hx _ ih =>
    have hu : '[' ∉ c :: '"' :: (x ++ ['"']) := by
      have hopen : '[' ∉ x := not_mem_of_class hx (by decide)
      rcases hc with rfl | rfl <;> simp [hopen]
    have hskip := stripInnerQuotesFrom_append (t := t) hu
    rw [ih] at hskip
    simpa using hskip

theorem fixMalformedArrowLabels_eq [Nonces] (h : Spelled l) : fixMalformedArrowLabels l = l := by
  have hopen : tokenOpen ∉ l := h.not_mem (by decide)
  have hinfix : ∀ {s u r}, (hideBracketRegions l).1 = s ++ (u ++ r) → tokenOpen ∉ u →
      Stops (u ++ r) → u <:+: l := infix_of_shown hopen
  have hcloses : closeLabelBeforeArrow (hideBracketRegions l).1 = (hideBracketRegions l).1 := by
    refine (closeLabelBeforeArrow_edits _).eq_of_forall fun s u r v hl he ↦ ?_
    obtain ⟨-⟩ := he
    have hu := hinfix hl (by decide) (stops_cons (by decide))
    have hpair : ['>', '"'] <:+: Text.of " -->\"" := ⟨Text.of " --", [], rfl⟩
    exact absurd (hpair.trans hu) (h.no_pair (by decide))
  have hopens : openLabelAfterDashes (hideBracketRegions l).1 = (hideBracketRegions l).1 := by
    refine (openLabelAfterDashes_edits _).eq_of_forall fun s u r v hl he ↦ ?_
    obtain ⟨-⟩ := he
    have hu := hinfix hl (by decide) (stops_cons (by decide))
    have hpair : ['"', '-'] <:+: Text.of "\"-- " := ⟨[], Text.of "- ", rfl⟩
    exact absurd (hpair.trans hu) (h.no_pair (by decide))
  rw [fixMalformedArrowLabels]
  split
  · rfl
  · simp only [hcloses, hopens]
    exact restore_hideBracketRegions hopen

end DiagramRepair.Flowchart
