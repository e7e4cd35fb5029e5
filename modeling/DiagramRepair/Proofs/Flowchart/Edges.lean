import DiagramRepair.Proofs.Flowchart.Targets
import DiagramRepair.Proofs.Rule.Arrow

namespace DiagramRepair.Flowchart

open Pattern Rule

variable {a l p q r t x : Text} {c : Char} {known : List Text}

theorem Name.isIdent (name : Name) : IsIdent name.text :=
  ⟨name.ne_nil, fun c hc ↦ by simp [isIdentChar, name.alphanum c hc]⟩

theorem isNodeChar_of_isLabelChar (hc : isLabelChar c) : isNodeChar c := by simp [isNodeChar, hc]

theorem Name.isNodeChar (name : Name) : ∀ c ∈ name.text, isNodeChar c :=
  fun c hc ↦ isNodeChar_of_isLabelChar (isLabelChar_of_isAlphanum (name.alphanum c hc))

theorem Label.isNodeChar (label : Label) : ∀ c ∈ label.bracketed, isNodeChar c := by
  intro c hc
  rw [Label.bracketed, List.mem_append, List.mem_append] at hc
  have hopen : ∀ c ∈ Text.of "[\"", Flowchart.isNodeChar c := by decide
  have hclose : ∀ c ∈ Text.of "\"]", Flowchart.isNodeChar c := by decide
  rcases hc with hc | hc | hc
  · exact hopen c hc
  · exact isNodeChar_of_isLabelChar (label.plain c hc)
  · exact hclose c hc

theorem Ref.isNodeChar (ref : Ref) : ∀ c ∈ ref.text, isNodeChar c := by
  intro c hc
  rw [Ref.text, List.mem_append] at hc
  rcases hc with hc | hc
  · exact ref.name.isNodeChar c hc
  · cases hlabel : ref.label? with
    | none => simp [hlabel] at hc
    | some label =>
      rw [hlabel] at hc
      exact label.isNodeChar c hc

theorem Label.isSquareLabel (label : Label) : IsSquareLabel label.bracketed := by
  have hbracket : ']' ∉ label.text := not_mem_of_class label.plain (by decide)
  exact ⟨'"' :: (label.text ++ ['"']), by simp [Label.bracketed, Text.of], by simp [hbracket]⟩

theorem Ref.label_cases (ref : Ref) : (ref.label?.map Label.bracketed).getD [] = [] ∨
    IsSquareLabel ((ref.label?.map Label.bracketed).getD []) := by
  cases ref.label? with
  | none => exact .inl rfl
  | some label => exact .inr label.isSquareLabel

theorem Ref.isNodeReference (ref : Ref) : IsNodeReference ref.text :=
  ⟨ref.name.text, _, rfl, ref.name.isIdent, ref.label_cases⟩

theorem Statement.ending_cases (s : Statement) : s.ending = [] ∨ s.ending = [';'] := by
  rw [Statement.ending]
  cases s.terminated with
  | false => exact .inl rfl
  | true => exact .inr rfl

theorem Statement.isNodeChar_ending (s : Statement) : ∀ c ∈ s.ending, isNodeChar c := by
  rcases s.ending_cases with h | h
  · simp [h]
  · rw [h]
    decide

/-- What stands before and behind an edge holds no character of an arrow. -/
theorem Statement.isNodeChar_source (s : Statement) (source : Ref) :
    ∀ c ∈ List.replicate s.indent ' ' ++ source.text, isNodeChar c := by
  intro c hc
  rcases List.mem_append.mp hc with hc | hc
  · rw [(List.mem_replicate.mp hc).2]
    decide
  · exact source.isNodeChar c hc

theorem Statement.isNodeChar_target (s : Statement) (target : Ref) :
    ∀ c ∈ target.text ++ s.ending, isNodeChar c := by
  intro c hc
  rcases List.mem_append.mp hc with hc | hc
  · exact target.isNodeChar c hc
  · exact s.isNodeChar_ending c hc

theorem Statement.isNodeChar_node {s : Statement} {name : Name} {label : Label}
    (hform : s.form = .node name label) : ∀ c ∈ s.text, isNodeChar c := by
  have htext : s.text = List.replicate s.indent ' ' ++ Ref.text ⟨name, some label⟩ ++ s.ending := by
    simp [Statement.text, hform, Form.text, Ref.text]
  intro c hc
  rw [htext] at hc
  rcases List.mem_append.mp hc with hc | hc
  · exact s.isNodeChar_source _ c hc
  · exact s.isNodeChar_ending c hc

theorem Statement.text_edge {s : Statement} {source target : Ref} {connector : Connector}
    (hform : s.form = .edge source connector target) :
    s.text = List.replicate s.indent ' ' ++ source.text ++
      (connector.text ++ (target.text ++ s.ending)) := by
  simp [Statement.text, hform, Form.text]

theorem Statement.text_reversed {s : Statement} {left right : Ref}
    (hform : s.form = .reversed left right) :
    s.text = List.replicate s.indent ' ' ++ left.text ++
      (Text.of " <-- " ++ (right.text ++ s.ending)) := by
  simp [Statement.text, hform, Form.text]

theorem Connector.not_mem (connector : Connector) (hc : isNodeChar c = false)
    (harrow : c ∉ "-|>".toList) : c ∉ connector.text := by
  have hlabel : ∀ label : Label, c ∉ label.text := fun label ↦
    not_mem_of_class (fun d hd ↦ isNodeChar_of_isLabelChar (label.plain d hd)) hc
  have hnode : ∀ d ∈ " \"".toList, d ≠ c := fun d hd ↦
    ne_of_class (p := isNodeChar) (by revert d; decide) hc
  simp at harrow hnode
  cases connector <;>
    simp [Connector.text, Text.of, hlabel, harrow, Ne.symm hnode.1, Ne.symm hnode.2]

theorem Statement.not_mem_edge {s : Statement} {source target : Ref} {connector : Connector}
    (hform : s.form = .edge source connector target) (hc : isNodeChar c = false)
    (harrow : c ∉ "-|>".toList) : c ∉ s.text := by
  intro hmem
  rw [Statement.text_edge hform] at hmem
  rcases List.mem_append.mp hmem with hmem | hmem
  · exact not_mem_of_class (s.isNodeChar_source source) hc hmem
  · rcases List.mem_append.mp hmem with hmem | hmem
    · exact connector.not_mem hc harrow hmem
    · exact not_mem_of_class (s.isNodeChar_target target) hc hmem

theorem Statement.newline_not_mem (s : Statement) : '\n' ∉ s.text := by
  cases hform : s.form with
  | node name label => exact not_mem_of_class (Statement.isNodeChar_node hform) (by decide)
  | edge source connector target => exact Statement.not_mem_edge hform (by decide) (by decide)
  | reversed left right =>
    have hleft := not_mem_of_class (s.isNodeChar_source left) (c := '\n') (by decide)
    have hright := not_mem_of_class (s.isNodeChar_target right) (c := '\n') (by decide)
    rw [Statement.text_reversed hform]
    simpa [Text.of] using And.intro hleft hright

theorem aims_target (s : Statement) (target : Ref) (hq : q = ' ' :: (target.text ++ s.ending) ∨
      ∃ x, (∀ c ∈ x, isLabelChar c) ∧
        q = '|' :: '"' :: (x ++ '"' :: '|' :: ' ' :: (target.text ++ s.ending))) :
    Aims target.name.text ((target.label?.map Label.bracketed).getD [] ++ s.ending) q where
  ident := target.name.isIdent
  next c hc := by
    cases hlabel : target.label? with
    | none =>
      rcases s.ending_cases with h | h <;> simp [hlabel, h] at hc
      exact .inr hc.symm
    | some label =>
      have hc : '[' = c := by simpa [hlabel, Label.bracketed, Text.of] using hc
      exact .inl hc.symm
  text := by simpa only [Ref.text, List.append_assoc] using hq

theorem Statement.pointsAt_edge {s : Statement} {source target : Ref} {connector : Connector}
    (hform : s.form = .edge source connector target)
    (hknown : target.label? = none → target.name.text ∈ known) : PointsAt known s.text := by
  have hsource := s.isNodeChar_source source
  have htarget := s.isNodeChar_target target
  have hp : '-' ∉ List.replicate s.indent ' ' ++ source.text ++ [' '] := by
    have hdash := not_mem_of_class hsource (c := '-') (by decide)
    simpa using hdash
  have hq : '-' ∉ target.text ++ s.ending := not_mem_of_class htarget (by decide)
  have hbar : '|' ∉ target.text ++ s.ending := not_mem_of_class htarget (by decide)
  have hlabelled : ((target.label?.map Label.bracketed).getD [] ++ s.ending).head? = some '[' ∨
      target.name.text ∈ known := by
    cases hlabel : target.label? with
    | none => exact .inr (hknown hlabel)
    | some label => exact .inl (by simp [Label.bracketed, Text.of])
  cases connector with
  | bare =>
    refine .inr ⟨_, _, _, ?_, aims_target s target (.inl rfl), hlabelled⟩
    have harrowed := Arrowed.plain hp (q := ' ' :: (target.text ++ s.ending)) (by simpa using hq)
    simpa [Statement.text_edge hform, Connector.text, Text.of] using harrowed
  | piped label =>
    refine .inr ⟨_, _, _, ?_, aims_target s target (.inr ⟨label.text, label.plain, rfl⟩), hlabelled⟩
    have hdash : '-' ∉ label.text := not_mem_of_class label.plain (by decide)
    have harrowed := Arrowed.plain hp (q := '|' :: '"' :: (label.text ++ '"' :: '|' :: ' ' ::
      (target.text ++ s.ending))) (by simpa [hdash] using hq)
    simpa [Statement.text_edge hform, Connector.text, Text.of] using harrowed
  | quoted label =>
    refine .inr ⟨_, _, _, ?_, aims_target s target (.inl rfl), hlabelled⟩
    have harrowed := Arrowed.labelled hp label.plain (q := ' ' :: (target.text ++ s.ending))
      ⟨by simpa using hq, by simpa using hbar⟩
    simpa [Statement.text_edge hform, Connector.text, Text.of] using harrowed

theorem Statement.pointsAt {s : Statement} (hforward : ∀ left right, s.form ≠ .reversed left right)
    (hknown : ∀ name, s.form.Targets name → name.text ∈ known) : PointsAt known s.text := by
  cases hform : s.form with
  | node name label =>
    exact .inl (not_mem_of_class (Statement.isNodeChar_node hform) (by decide))
  | edge source connector target =>
    refine Statement.pointsAt_edge hform fun hlabel ↦ hknown target.name ?_
    rw [hform]
    exact .mk hlabel
  | reversed left right => exact absurd hform (hforward left right)

inductive Barred : Text → Prop
  | plain {l : Text} (h : '|' ∉ l) : Barred l
  | label {p x q : Text} (hp : '|' ∉ p) (hx : '|' ∉ x) (hq : '|' ∉ q) :
      Barred (p ++ '|' :: '"' :: (x ++ '|' :: q))

theorem Statement.barred (s : Statement) : Barred s.text := by
  cases hform : s.form with
  | node name label => exact .plain (not_mem_of_class (Statement.isNodeChar_node hform) (by decide))
  | edge source connector target =>
    have hp := not_mem_of_class (s.isNodeChar_source source) (c := '|') (by decide)
    have hq := not_mem_of_class (s.isNodeChar_target target) (c := '|') (by decide)
    rw [Statement.text_edge hform]
    generalize List.replicate s.indent ' ' ++ source.text = p at hp
    generalize target.text ++ s.ending = q at hq
    cases connector with
    | bare => exact .plain (by simpa [Connector.text, Text.of] using ⟨hp, hq⟩)
    | piped label =>
      have hlabel : '|' ∉ label.text := not_mem_of_class label.plain (by decide)
      have hbarred := Barred.label (p := p ++ Text.of " -->") (x := label.text ++ ['"'])
        (q := ' ' :: q)
        (by simpa [Text.of] using hp) (by simpa using hlabel) (by simpa using hq)
      simpa [Connector.text, Text.of] using hbarred
    | quoted label =>
      have hlabel : '|' ∉ label.text := not_mem_of_class label.plain (by decide)
      exact .plain (by simpa [Connector.text, Text.of, hlabel] using ⟨hp, hq⟩)
  | reversed left right =>
    have hp := not_mem_of_class (s.isNodeChar_source left) (c := '|') (by decide)
    have hq := not_mem_of_class (s.isNodeChar_target right) (c := '|') (by decide)
    rw [Statement.text_reversed hform]
    exact .plain (by simpa [Text.of] using And.intro hp hq)

theorem quotePipeLabels_eq (h : Barred l) : Line.quotePipeLabels l = l := by
  refine (quotePipeLabels_edits l).eq_of_forall fun a u r v hl he ↦ ?_
  cases he with
  | @mk arrow s label _ _ _ hlabel =>
    have hbar : l = a ++ (arrow ++ s) ++ '|' :: (label ++ '|' :: r) := by simp [hl, Text.of]
    cases h with
    | plain h => exact absurd (by simp [hbar]) h
    | @label p x q hp hx hq =>
      rcases Text.first_or_later hp hbar with ⟨-, htail⟩ | ⟨p', -, hp'⟩
      · obtain ⟨c, label, rfl⟩ := List.exists_cons_of_ne_nil hlabel.1
        obtain ⟨rfl, -⟩ := List.cons.inj htail
        simp at hlabel
      · have hx' : '|' ∉ '"' :: x := by simpa using hx
        rcases Text.first_or_later hx' hp' with ⟨-, rfl⟩ | ⟨p'', -, rfl⟩
        · simp at hq
        · simp at hq

theorem Form.turned_ne_reversed (form : Form) (left right : Ref) :
    form.turned ≠ .reversed left right := by
  cases form <;> simp [Form.turned]

def isMarginChar (c : Char) : Bool := Text.isBlank c || c == ';'

theorem isMarginChar_getLast {u : Text} (hu : IsNodeReference u) (hc : c ∈ u.getLast?) :
    isMarginChar c = false := by
  rcases hu.getLast (s := []) hc with hc | rfl
  · have hsemicolon : c ≠ ';' := ne_of_class hc (by decide)
    simp [isMarginChar, not_isBlank_of_isIdentChar hc, hsemicolon]
  · decide

theorem eq_of_margins {s s' u u' v v' : Text} (hs : Blank s) (hs' : Blank s')
    (hu : IsNodeReference u) (hu' : IsNodeReference u') (hv : ∀ c ∈ v, isMarginChar c)
    (hv' : ∀ c ∈ v', isMarginChar c) (h : s ++ (u ++ v) = s' ++ (u' ++ v')) :
    s = s' ∧ u = u' ∧ v = v' := by
  obtain ⟨rfl, hrest⟩ := Text.run_unique hs hs'
    (fun c hc ↦ not_isBlank_of_isIdentChar (hu.isIdentChar_head hc))
    (fun c hc ↦ not_isBlank_of_isIdentChar (hu'.isIdentChar_head hc)) h
  exact ⟨rfl, Text.run_unique_right hv hv' (fun _ hc ↦ isMarginChar_getLast hu hc)
    (fun _ hc ↦ isMarginChar_getLast hu' hc) hrest⟩

theorem eq_of_turnsEdge {s : Statement} {left right : Ref} {l' : Text}
    (hform : s.form = .reversed left right) (h : TurnsEdge s.text l') : l' = s.turned.text := by
  have hblank : ∀ {v : Text}, Blank v → ∀ c ∈ v, isMarginChar c := fun hv c hc ↦ by
    simp [isMarginChar, hv c hc]
  have hending : ∀ c ∈ s.ending, isMarginChar c := by
    rcases s.ending_cases with h | h <;> simp [h, isMarginChar]
  have hindent : Blank (List.replicate s.indent ' ') := fun c hc ↦ by
    rw [(List.mem_replicate.mp hc).2]
    decide
  have hp : '<' ∉ List.replicate s.indent ' ' ++ left.text ++ [' '] := by
    have hleft := not_mem_of_class (s.isNodeChar_source left) (c := '<') (by decide)
    simpa using hleft
  have hq : '<' ∉ Text.of "-- " ++ (right.text ++ s.ending) := by
    have hright := not_mem_of_class (s.isNodeChar_target right) (c := '<') (by decide)
    simpa [Text.of] using hright
  have hline : s.text = List.replicate s.indent ' ' ++ left.text ++ [' '] ++
      '<' :: (Text.of "-- " ++ (right.text ++ s.ending)) := by
    simp [Statement.text_reversed hform, Text.of]
  generalize hl : s.text = l at h
  cases h with
  | @mk indent left' s₁ s₂ right' tail r hindent' hleft hs₁ hs₂ hright htail hr =>
    have hcut : List.replicate s.indent ' ' ++ left.text ++ [' '] ++
        '<' :: (Text.of "-- " ++ (right.text ++ s.ending)) =
        indent ++ (left' ++ s₁) ++ '<' :: (Text.of "--" ++ (s₂ ++ (right' ++ (tail ++ r)))) := by
      rw [← hline, hl]
      simp [Text.of]
    obtain ⟨hbefore, hafter⟩ := (Text.first_or_later hp hcut).resolve_right fun hlater ↦
      hq (hlater.elim fun _ hq' ↦ by simp [hq'.2])
    have htail' : ∀ c ∈ tail ++ r, isMarginChar c := by
      intro c hc
      rcases List.mem_append.mp hc with hc | hc
      · rcases htail.of_mem hc with hc | rfl
        · simp [isMarginChar, hc]
        · decide
      · refine hblank (fun c hc ↦ ?_) c hc
        rcases hr with rfl | rfl
        · simp at hc
        · rw [List.mem_singleton.mp hc]
          decide
    obtain ⟨rfl, rfl, -⟩ := eq_of_margins hindent' hindent hleft left.isNodeReference (hblank hs₁)
      (hblank (v := [' ']) (by decide)) (by simpa using hbefore)
    have hrest : s₂ ++ (right' ++ (tail ++ r)) = [' '] ++ (right.text ++ s.ending) := by
      simpa [Text.of] using hafter.symm
    obtain ⟨-, rfl, htail'⟩ := eq_of_margins hs₂ (by decide) hright right.isNodeReference htail'
      hending hrest
    have hr' : r = [] := by
      refine hr.resolve_right ?_
      rintro rfl
      rcases s.ending_cases with h | h
      · simp [h] at htail'
      · have hlast := congrArg List.getLast? htail'
        simp [h] at hlast
    simp only [hr', List.append_nil] at htail'
    simp [Statement.text, Statement.turned, Statement.ending, hform, Form.turned, Form.text,
      Connector.text, htail']

theorem fixReversedEdges_eq (h : '<' ∉ l) : fixReversedEdges l = l := by
  refine (fixReversedEdges_cases l).resolve_right fun hturns ↦ ?_
  generalize fixReversedEdges l = l' at hturns
  cases hturns
  simp [Text.of] at h

theorem fixReversedEdges_text (s : Statement) : fixReversedEdges s.text = s.turned.text := by
  cases hform : s.form with
  | node name label =>
    have hturned : s.turned.text = s.text := by
      simp [Statement.turned, Statement.text, Statement.ending, hform, Form.turned]
    rw [hturned]
    exact fixReversedEdges_eq (not_mem_of_class (Statement.isNodeChar_node hform) (by decide))
  | edge source connector target =>
    have hturned : s.turned.text = s.text := by
      simp [Statement.turned, Statement.text, Statement.ending, hform, Form.turned]
    rw [hturned]
    exact fixReversedEdges_eq (Statement.not_mem_edge hform (by decide) (by decide))
  | reversed left right =>
    have hmatch : reversedEdgePattern.isMatch s.text := by
      refine (isMatch_iff (by decide)).mpr ⟨s.text, [], _, (List.append_nil _).symm,
        takes_reversedEdgePattern.mpr ⟨.inl rfl, s.ending, right.text, [' '], [' '],
          List.replicate s.indent ' ', left.text, ?_, rfl, ?_, right.isNodeReference, by decide,
          by decide, left.isNodeReference, ?_⟩⟩
      · simp [Statement.text_reversed hform, Text.of]
      · exact ⟨[], s.ending, [], by simp, by decide, s.ending_cases, by decide⟩
      · intro c hc
        rw [(List.mem_replicate.mp hc).2]
        decide
    obtain ⟨m, hm⟩ := Option.isSome_iff_exists.mp hmatch
    exact eq_of_turnsEdge hform (turnsEdge_of_match hm)

end DiagramRepair.Flowchart
