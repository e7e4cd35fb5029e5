import DiagramRepair.Proofs.Flowchart.Edges
import DiagramRepair.Proofs.Rule.Note

namespace DiagramRepair.Flowchart

open Pattern Rule IdSet

variable {a l r t : Text} {c : Char} {content : Text} {s : Statement} {name : Name}

theorem blank_indent (s : Statement) : Blank (List.replicate s.indent ' ') := fun c hc ↦ by
  rw [(List.mem_replicate.mp hc).2]
  decide

theorem Connector.exists_rest (connector : Connector) :
    ∃ r, connector.text = ' ' :: (Text.of "--" ++ r) := by
  cases connector <;> exact ⟨_, rfl⟩

theorem Connector.exists_before (connector : Connector) : ∃ r, connector.text = r ++ [' '] := by
  cases connector with
  | bare => exact ⟨Text.of " -->", rfl⟩
  | piped label => exact ⟨Text.of " -->|\"" ++ (label.text ++ Text.of "\"|"), by
      simp [Connector.text, Text.of]⟩
  | quoted label => exact ⟨Text.of " -- \"" ++ (label.text ++ Text.of "\" -->"), by
      simp [Connector.text, Text.of]⟩

/-- Behind the first name of a line stands its label, or a blank and the start of an arrow. -/
theorem Statement.first_name (s : Statement) : ∃ (name : Name) (r : Text),
    s.text = List.replicate s.indent ' ' ++ (name.text ++ r) ∧
      ((∃ t, r = '[' :: t) ∨ ∃ c t, r = ' ' :: c :: t ∧ (c = '-' ∨ c = '<')) := by
  have hlabel : ∀ (label : Label) (t : Text), ∃ t', label.bracketed ++ t = '[' :: t' :=
    fun label t ↦ ⟨_, rfl⟩
  have href : ∀ (ref : Ref) {t : Text}, (∃ c t', t = ' ' :: c :: t' ∧ (c = '-' ∨ c = '<')) →
      ∃ r, ref.text ++ t = ref.name.text ++ r ∧
        ((∃ t, r = '[' :: t) ∨ ∃ c t, r = ' ' :: c :: t ∧ (c = '-' ∨ c = '<')) := by
    intro ref t ht
    refine ⟨(ref.label?.map Label.bracketed).getD [] ++ t, by simp [Ref.text], ?_⟩
    cases ref.label? with
    | none => exact .inr ht
    | some label => exact .inl (hlabel label t)
  cases hform : s.form with
  | node name label =>
    exact ⟨name, label.bracketed ++ s.ending, by simp [Statement.text, hform, Form.text],
      .inl (hlabel label _)⟩
  | edge source connector target =>
    obtain ⟨t, ht⟩ := connector.exists_rest
    obtain ⟨r, hr, hcases⟩ := href source (t := connector.text ++ (target.text ++ s.ending))
      ⟨'-', _, by rw [ht]; rfl, .inl rfl⟩
    exact ⟨source.name, r, by rw [Statement.text_edge hform, List.append_assoc, hr], hcases⟩
  | reversed left right =>
    obtain ⟨r, hr, hcases⟩ := href left (t := Text.of " <-- " ++ (right.text ++ s.ending))
      ⟨'<', _, rfl, .inr rfl⟩
    exact ⟨left.name, r, by rw [Statement.text_reversed hform, List.append_assoc, hr], hcases⟩

theorem Statement.isStatement (s : Statement) : isStatement s.text := by
  obtain ⟨name, r, htext, -⟩ := s.first_name
  obtain ⟨u, u', htrim, hu, hu'⟩ := Text.exists_trim s.text
  obtain ⟨c, w, hname⟩ := List.exists_cons_of_ne_nil name.ne_nil
  have hc : isIdentChar c := name.isIdent.2 c (by simp [hname])
  have hne : Text.trim s.text ≠ [] := by
    intro hnil
    have hmem : c ∈ u ++ (Text.trim s.text ++ u') := by
      rw [← htrim, htext, hname]
      simp
    have hblank : Text.isBlank c := by
      rw [hnil] at hmem
      rcases List.mem_append.mp hmem with hmem | hmem
      · exact hu c hmem
      · exact hu' c hmem
    simp [not_isBlank_of_isIdentChar hc] at hblank
  have hcomment : Text.startsWith (Text.trim s.text) ['%', '%'] = false := by
    rw [Bool.eq_false_iff, Text.startsWith, ne_eq, List.isPrefixOf_iff_prefix]
    rintro ⟨t, ht⟩
    have hmem : '%' ∈ s.text := by
      rw [htrim, ← ht]
      simp
    exact s.spelled.not_mem (by decide) hmem
  simp [IdSet.isStatement, hne, hcomment]

theorem Statement.not_isNote (s : Statement) (indent node text : Text) :
    ¬ IsNote s.text indent node text := by
  obtain ⟨name, r, htext, hr⟩ := s.first_name
  rw [htext]
  exact not_isNote_of_word (blank_indent s) (isFoldedIdent_of_isIdent name.isIdent) hr _ _ _

theorem mem_definedIn_of_source {ref : Ref} {arrow : Text} (harrow : IsSourceArrow arrow)
    (htext : s.text = List.replicate s.indent ' ' ++ ref.text ++ ' ' :: (arrow ++ r)) :
    ref.name.text ∈ definedIn s.text := by
  have hshape : IsShapeLabel ((ref.label?.map Label.bracketed).getD []) :=
    ref.label_cases.imp_right .inl
  have hcut : s.text = List.replicate s.indent ' ' ++ (ref.name.text ++ ([] ++
      ((ref.label?.map Label.bracketed).getD [] ++ ([' '] ++ (arrow ++ r))))) := by
    simp [htext, Ref.text]
  rw [hcut]
  exact mem_definedIn_source (blank_indent s) ref.name.isIdent (by decide) hshape (by decide) harrow

theorem mem_definedIn_of_target {ref : Ref} (hlabel : ref.label?.isSome)
    (htext : s.text = a ++ ' ' :: (ref.text ++ t)) : ref.name.text ∈ definedIn s.text := by
  obtain ⟨label, hlabel⟩ := Option.isSome_iff_exists.mp hlabel
  have hcut : s.text = a ++ [' '] ++
      (ref.name.text ++ '[' :: '"' :: (label.text ++ (Text.of "\"]" ++ t))) := by
    simp [htext, Ref.text, hlabel, Label.bracketed, Text.of]
  rw [hcut]
  refine mem_definedIn_label (fun c hc ↦ ?_) ref.name.isIdent
  obtain rfl : ' ' = c := by simpa using hc
  decide

theorem mem_definedIn_of_introduces (h : s.form.Introduces name) :
    name.text ∈ definedIn s.text := by
  generalize hform : s.form = form at h
  cases h with
  | @node _ label =>
    have hcut : s.text = List.replicate s.indent ' ' ++ (name.text ++ '[' :: '"' :: (label.text ++
        (Text.of "\"]" ++ s.ending))) := by
      simp [Statement.text, hform, Form.text, Label.bracketed, Text.of]
    rw [hcut]
    refine mem_definedIn_label (fun c hc ↦ ?_) name.isIdent
    exact not_isIdentChar_of_isBlank (blank_indent s c (List.mem_of_getLast? hc))
  | @source source target connector =>
    obtain ⟨r, hr⟩ := connector.exists_rest
    refine mem_definedIn_of_source (r := r ++ (target.text ++ s.ending)) (.inr (.inl rfl)) ?_
    rw [Statement.text_edge hform, hr]
    simp
  | @target source target connector hlabel =>
    obtain ⟨r, hr⟩ := connector.exists_before
    refine mem_definedIn_of_target (a := List.replicate s.indent ' ' ++ source.text ++ r)
      (t := s.ending) hlabel ?_
    rw [Statement.text_edge hform, hr]
    simp
  | @left left right =>
    refine mem_definedIn_of_source (r := ' ' :: (right.text ++ s.ending)) (.inr (.inr rfl)) ?_
    simp [Statement.text_reversed hform, Text.of]
  | @right left right hlabel =>
    refine mem_definedIn_of_target (a := List.replicate s.indent ' ' ++ left.text ++ Text.of " <--")
      (t := s.ending) hlabel ?_
    simp [Statement.text_reversed hform, Text.of]

end DiagramRepair.Flowchart
