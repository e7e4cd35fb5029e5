import DiagramRepair.Proofs.Flowchart.Syntax
import DiagramRepair.Proofs.Rule.Words
import DiagramRepair.Proofs.Text.Classes
import Mathlib.Data.List.Chain

namespace DiagramRepair.Flowchart

open Pattern

variable {c d : Char} {l p r t u : Text}

/-- Which character may follow which one; a line feed stands for either end of a text. -/
def mayFollow (c d : Char) : Bool :=
  if isLabelChar c then isLabelChar d || d == '"' || among (if c = ' ' then "-<" else "[;\n") d
  else
    match c with
    | '\n' => isLabelChar d
    | '"' => isLabelChar d || among "]|" d
    | '[' => d == '"'
    | ']' => among " ;\n" d
    | '|' => among " \"" d
    | '-' => among "-> " d
    | '>' => among " |" d
    | '<' => d == '-'
    | ';' => d == '\n'
    | _ => false

def Follows (c : Char) (t : Text) : Prop := List.IsChain (fun c d ↦ mayFollow c d) (c :: t)

def Spelled (t : Text) : Prop := Follows '\n' (t ++ ['\n'])

theorem isLabelChar_of_isAlphanum (h : c.isAlphanum) : isLabelChar c := by simp [isLabelChar, h]

theorem mayFollow_of_isLabelChar (hc : isLabelChar c) (hd : isLabelChar d) : mayFollow c d := by
  simp [mayFollow, hc, hd]

theorem mayFollow_of_isAlphanum (hc : c.isAlphanum) (hd : among " \"[;\n" d) : mayFollow c d := by
  have hblank : c ≠ ' ' := ne_of_class (p := Char.isAlphanum) hc (by decide)
  rw [among_eq_true] at hd
  simp only [mayFollow, isLabelChar_of_isAlphanum hc, if_true, hblank, if_false]
  revert d
  decide

theorem mayFollow_quote (hc : isLabelChar c) : mayFollow c '"' := by
  simp [mayFollow, hc]

theorem follows_cons : Follows c (d :: t) ↔ mayFollow c d ∧ Follows d t := List.isChain_cons_cons

theorem Follows.append (hne : u ≠ []) (hu : ∀ d ∈ u, isLabelChar d) (hc : ∀ d ∈ u, mayFollow c d)
    (ht : ∀ d ∈ u, Follows d t) : Follows c (u ++ t) := by
  induction u generalizing c with
  | nil => exact absurd rfl hne
  | cons d u ih =>
    refine follows_cons.mpr ⟨hc d (by simp), ?_⟩
    by_cases hnil : u = []
    · subst hnil
      exact ht d (by simp)
    · refine ih hnil (fun e he ↦ hu e (by simp [he])) (fun e he ↦ ?_) fun e he ↦ ht e (by simp [he])
      exact mayFollow_of_isLabelChar (hu d (by simp)) (hu e (by simp [he]))

theorem Label.follows (label : Label) (ht : Follows '"' t) :
    Follows '"' (label.text ++ '"' :: t) := by
  obtain ⟨c, hc, -⟩ := label.not_blank
  refine .append (List.ne_nil_of_mem hc) label.plain (fun d hd ↦ ?_) fun d hd ↦ ?_
  · change (isLabelChar d || among "]|" d) = true
    rw [label.plain d hd, Bool.true_or]
  · exact follows_cons.mpr ⟨mayFollow_quote (label.plain d hd), ht⟩

theorem Name.follows (name : Name) (hc : ∀ d, d.isAlphanum → mayFollow c d)
    (ht : ∀ d, d.isAlphanum → Follows d t) : Follows c (name.text ++ t) :=
  .append name.ne_nil (fun d hd ↦ isLabelChar_of_isAlphanum (name.alphanum d hd))
    (fun d hd ↦ hc d (name.alphanum d hd)) fun d hd ↦ ht d (name.alphanum d hd)

theorem Label.follows_bracketed (label : Label) (hc : c.isAlphanum) (ht : Follows ']' t) :
    Follows c (label.bracketed ++ t) := by
  simp only [Label.bracketed, Text.of, String.reduceToList, List.cons_append, List.nil_append,
    List.append_assoc, follows_cons]
  refine ⟨mayFollow_of_isAlphanum hc (by decide), by decide, label.follows ?_⟩
  exact follows_cons.mpr ⟨by decide, ht⟩

theorem Ref.follows (r : Ref) (hc : ∀ d, d.isAlphanum → mayFollow c d)
    (ht : ∀ d, d.isAlphanum ∨ d = ']' → Follows d t) : Follows c (r.text ++ t) := by
  rw [Ref.text, List.append_assoc]
  refine r.name.follows hc fun d hd ↦ ?_
  cases r.label? with
  | none => exact ht d (.inl hd)
  | some label => exact label.follows_bracketed hd (ht ']' (.inr rfl))

theorem Connector.follows (k : Connector) (hc : mayFollow c ' ') (ht : Follows ' ' t) :
    Follows c (k.text ++ t) := by
  cases k with
  | bare =>
    simp only [Connector.text, Text.of, String.reduceToList, List.cons_append, List.nil_append,
      follows_cons]
    exact ⟨hc, by decide, by decide, by decide, by decide, ht⟩
  | piped label =>
    simp only [Connector.text, Text.of, String.reduceToList, List.cons_append, List.nil_append,
      List.append_assoc, follows_cons]
    refine ⟨hc, by decide, by decide, by decide, by decide, by decide, label.follows ?_⟩
    exact follows_cons.mpr ⟨by decide, follows_cons.mpr ⟨by decide, ht⟩⟩
  | quoted label =>
    simp only [Connector.text, Text.of, String.reduceToList, List.cons_append, List.nil_append,
      List.append_assoc, follows_cons]
    refine ⟨hc, by decide, by decide, by decide, by decide, label.follows ?_⟩
    simp only [follows_cons]
    exact ⟨by decide, by decide, by decide, by decide, by decide, ht⟩

theorem follows_ending (s : Statement) (hc : c.isAlphanum ∨ c = ']') :
    Follows c (s.ending ++ ['\n']) := by
  have hsign : ∀ d ∈ ";\n".toList, mayFollow c d := by
    rcases hc with hc | rfl
    · intro d hd
      refine mayFollow_of_isAlphanum hc (among_eq_true.mpr ?_)
      simp_all
    · decide
  rw [Statement.ending]
  split
  · refine follows_cons.mpr ⟨hsign _ (by decide), follows_cons.mpr ⟨by decide, ?_⟩⟩
    exact List.isChain_singleton _
  · exact follows_cons.mpr ⟨hsign _ (by decide), List.isChain_singleton _⟩

theorem Form.follows (form : Form) (hc : ∀ d, d.isAlphanum → mayFollow c d)
    (ht : ∀ d, d.isAlphanum ∨ d = ']' → Follows d t) : Follows c (form.text ++ t) := by
  have hspace : ∀ d, d.isAlphanum ∨ d = ']' → mayFollow d ' ' := by
    rintro d (hd | rfl)
    · exact mayFollow_of_isAlphanum hd (by decide)
    · decide
  have hname : ∀ d, d.isAlphanum → mayFollow ' ' d := fun d hd ↦
    mayFollow_of_isLabelChar (by decide) (isLabelChar_of_isAlphanum hd)
  cases form with
  | node name label =>
    rw [Form.text, List.append_assoc]
    exact name.follows hc fun d hd ↦ label.follows_bracketed hd (ht _ (.inr rfl))
  | edge source connector target =>
    rw [Form.text, List.append_assoc, List.append_assoc]
    refine source.follows hc fun d hd ↦ connector.follows (hspace d hd) ?_
    exact target.follows hname ht
  | reversed left right =>
    simp only [Form.text, Text.of, String.reduceToList, List.cons_append, List.nil_append,
      List.append_assoc]
    refine left.follows hc fun d hd ↦ ?_
    simp only [follows_cons]
    exact ⟨hspace d hd, by decide, by decide, by decide, by decide, right.follows hname ht⟩

theorem Statement.spelled (s : Statement) : Spelled s.text := by
  have hstart : ∀ c, c = '\n' ∨ c = ' ' →
      Follows c (s.form.text ++ (s.ending ++ ['\n'])) := fun c hc ↦ by
    refine s.form.follows (fun d hd ↦ ?_) fun d hd ↦ follows_ending s hd
    have hd := isLabelChar_of_isAlphanum hd
    rcases hc with rfl | rfl
    · exact hd
    · exact mayFollow_of_isLabelChar (by decide) hd
  rw [Spelled, Statement.text, List.append_assoc, List.append_assoc]
  by_cases hindent : s.indent = 0
  · simpa [hindent] using hstart '\n' (.inl rfl)
  · refine .append (by simpa using hindent) (fun d hd ↦ ?_) (fun d hd ↦ ?_) fun d hd ↦ ?_
    all_goals obtain rfl := (List.mem_replicate.mp hd).2
    · decide
    · decide
    · exact hstart ' ' (.inr rfl)

theorem spelled_header : Spelled header := by
  unfold Spelled Follows
  decide

def isSign (c : Char) : Bool := isLabelChar c || among "\"[]|-><;\n" c

theorem isSign_of_mayFollow (h : mayFollow c d) : isSign d := by
  have hsign : ∀ {s : String}, (∀ e ∈ s.toList, isSign e) → among s d → isSign d :=
    fun hs hd ↦ hs d (among_eq_true.mp hd)
  have hlabel : isLabelChar d → isSign d := fun hd ↦ by simp [isSign, hd]
  unfold mayFollow at h
  split at h
  · simp only [Bool.or_eq_true, beq_iff_eq] at h
    obtain (hd | rfl) | hd := h
    · exact hlabel hd
    · decide
    · split at hd <;> exact hsign (by decide) hd
  · split at h
    · exact hlabel h
    · simp only [Bool.or_eq_true] at h
      exact h.elim hlabel (hsign (by decide))
    all_goals first
      | exact hsign (by decide) h
      | exact beq_iff_eq.mp h ▸ by decide
      | cases h

theorem Spelled.pair (h : Spelled t) (hcd : [c, d] <:+: t) : mayFollow c d := by
  obtain ⟨p, r, ht⟩ := hcd
  have hinfix : [c, d] <:+: '\n' :: (t ++ ['\n']) := ⟨'\n' :: p, r ++ ['\n'], by simp [← ht]⟩
  have hchain := List.IsChain.infix h hinfix
  exact (List.isChain_cons_cons.mp hchain).1

theorem Spelled.no_pair (h : Spelled t) (hno : mayFollow c d = false) : ¬ [c, d] <:+: t :=
  fun hcd ↦ by simp [h.pair hcd] at hno

theorem Spelled.last (h : Spelled t) (ht : t = p ++ [c]) : mayFollow c '\n' := by
  have hinfix : [c, '\n'] <:+: '\n' :: (t ++ ['\n']) := ⟨'\n' :: p, [], by simp [ht]⟩
  have hchain := List.IsChain.infix h hinfix
  exact (List.isChain_cons_cons.mp hchain).1

theorem Spelled.exists_before (h : Spelled t) (ht : t = p ++ d :: r) :
    ∃ c, (p = [] ∧ c = '\n' ∨ ∃ p', p = p' ++ [c]) ∧ mayFollow c d := by
  rcases List.eq_nil_or_concat p with rfl | ⟨p', c, rfl⟩
  · rw [ht] at h
    exact ⟨'\n', .inl ⟨rfl, rfl⟩, (follows_cons.mp h).1⟩
  · exact ⟨c, .inr ⟨p', by simp⟩, h.pair ⟨p', r, by simp [ht]⟩⟩

theorem Spelled.isSign (h : Spelled t) (hc : c ∈ t) : isSign c := by
  obtain ⟨p, r, ht⟩ := List.append_of_mem hc
  obtain ⟨d, -, hd⟩ := h.exists_before ht
  exact isSign_of_mayFollow hd

theorem eq_of_isSign_of_isBlank (hc : isSign c) (hblank : Text.isBlank c) : c = ' ' ∨ c = '\n' := by
  simp only [isSign, isLabelChar, Bool.or_eq_true] at hc
  obtain (halphanum | hc) | hc := hc
  · have hident : isIdentChar c := by simp [isIdentChar, halphanum]
    simp [not_isIdentChar_of_isBlank hblank] at hident
  · have hsigns : ∀ d ∈ " ,.".toList, Text.isBlank d → d = ' ' ∨ d = '\n' := by decide
    exact hsigns c (among_eq_true.mp hc) hblank
  · have hsigns : ∀ d ∈ "\"[]|-><;\n".toList, Text.isBlank d → d = ' ' ∨ d = '\n' := by decide
    exact hsigns c (among_eq_true.mp hc) hblank

theorem Spelled.not_mem (h : Spelled t) (hc : Flowchart.isSign c = false) : c ∉ t :=
  fun hmem ↦ by simp [h.isSign hmem] at hc

end DiagramRepair.Flowchart
