import DiagramRepair.Proofs.Flowchart.Spelling
import DiagramRepair.Proofs.Rule.EdgeLabel
import DiagramRepair.Proofs.Rule.Node

namespace DiagramRepair.Flowchart

open Pattern Rule

variable {a b l p q r s t u v x : Text} {c : Char}

def isNodeChar (c : Char) : Bool := isLabelChar c || among "\"[];" c

inductive Arrowed (q : Text) : Text → Prop
  | plain {p : Text} (hp : '-' ∉ p) (hq : '-' ∉ q) : Arrowed q (p ++ '-' :: '-' :: '>' :: q)
  | labelled {p x : Text} (hp : '-' ∉ p) (hx : ∀ c ∈ x, isLabelChar c) (hq : '-' ∉ q ∧ '|' ∉ q) :
      Arrowed q (p ++ '-' :: '-' :: ' ' :: '"' :: (x ++ '"' :: ' ' :: '-' :: '-' :: '>' :: q))

inductive AfterDashes (q : Text) : Text → Prop
  | tip (hq : '-' ∉ q) : AfterDashes q ('>' :: q)
  | label {x : Text} (hx : ∀ c ∈ x, isLabelChar c) (hq : '-' ∉ q ∧ '|' ∉ q) :
      AfterDashes q (' ' :: '"' :: (x ++ '"' :: ' ' :: '-' :: '-' :: '>' :: q))

theorem afterDashes_of_plain (hp : '-' ∉ p) (hq : '-' ∉ q)
    (h : p ++ '-' :: '-' :: '>' :: q = a ++ '-' :: '-' :: b) : AfterDashes q b := by
  have hno : '-' ∉ '>' :: q := by simp [hq]
  rcases Text.first_or_later hp h with ⟨-, hb⟩ | ⟨a', -, ha'⟩
  · obtain rfl := (List.cons.inj hb).2
    exact .tip hq
  · rcases Text.first_or_later (p := []) (by simp) ha' with ⟨-, hb⟩ | ⟨a'', -, hb⟩
    · simp at hb
    · exact absurd (by simp [hb]) hno

theorem Arrowed.afterDashes (h : Arrowed q l) (hl : l = a ++ '-' :: '-' :: b) :
    AfterDashes q b := by
  cases h with
  | plain hp hq => exact afterDashes_of_plain hp hq hl
  | @labelled p x hp hx hq =>
    have hgap : '-' ∉ ' ' :: '"' :: (x ++ ['"', ' ']) := by
      have hx' : '-' ∉ x := not_mem_of_class hx (by decide)
      simp [hx']
    rcases Text.first_or_later hp hl with ⟨-, hb⟩ | ⟨a', -, ha'⟩
    · obtain rfl := (List.cons.inj hb).2
      exact .label hx hq
    · rcases Text.first_or_later (p := []) (by simp) ha' with ⟨-, hb⟩ | ⟨a'', -, hb⟩
      · simp at hb
      · exact afterDashes_of_plain hgap hq.1 (by simpa using hb)

def Forward (l : Text) : Prop := '-' ∉ l ∨ ∃ q, Arrowed q l

theorem Forward.afterDashes (h : Forward l) (hl : l = a ++ '-' :: '-' :: b) :
    ∃ q, AfterDashes q b := by
  rcases h with h | ⟨q, h⟩
  · simp [hl] at h
  · exact ⟨q, h.afterDashes hl⟩

theorem AfterDashes.next (h : AfterDashes q b) (hb : b = s ++ c :: r) (hs : Blank s)
    (hc : Text.isBlank c = false) : c = '"' ∨ c = '>' ∧ '-' ∉ r := by
  cases h with
  | tip hq =>
    cases s with
    | nil =>
      obtain ⟨rfl, rfl⟩ := List.cons.inj hb
      exact .inr ⟨rfl, hq⟩
    | cons d s =>
      obtain ⟨rfl, -⟩ := List.cons.inj hb
      exact absurd (hs '>' (by simp)) (by decide)
  | @label x hx hq =>
    have hrun : [' '] ++ '"' :: (x ++ '"' :: ' ' :: '-' :: '-' :: '>' :: q) = s ++ c :: r := hb
    obtain ⟨-, htail⟩ := Text.run_unique (P := Text.isBlank) (by decide) hs
      (by rintro c ⟨⟩; decide) (by rintro d ⟨⟩; exact hc) hrun
    exact .inl (List.cons.inj htail).1.symm

theorem AfterDashes.count_le (h : AfterDashes q b) : b.count '-' ≤ 2 := by
  cases h with
  | tip hq => simp [List.count_eq_zero.mpr hq]
  | @label x hx hq =>
    have hx' : x.count '-' = 0 := List.count_eq_zero.mpr (not_mem_of_class hx (by decide))
    simp [hx', List.count_eq_zero.mpr hq.1]

theorem AfterDashes.bar_not_mem (h : AfterDashes q b) (hdash : '-' ∈ b) : '|' ∉ b := by
  cases h with
  | tip hq => simp [hq] at hdash
  | @label x hx hq =>
    have hx' : '|' ∉ x := not_mem_of_class hx (by decide)
    simp [hx', hq.2]

/-- Behind two dashes and blanks stands a quoted label, or the tip of the last arrow. -/
theorem Forward.next (h : Forward l) (hl : l = a ++ (Text.of "--" ++ (s ++ c :: r))) (hs : Blank s)
    (hc : Text.isBlank c = false) : c = '"' ∨ c = '>' ∧ '-' ∉ r := by
  obtain ⟨q, hafter⟩ := h.afterDashes (a := a) (b := s ++ c :: r) hl
  exact hafter.next rfl hs hc

theorem convertGroupLabels_eq (h : Forward l) : convertGroupLabels l = l := by
  refine (convertGroupLabels_edits l).eq_of_forall fun a u r v hl he ↦ ?_
  obtain ⟨s, c, y, hu, hs, hc⟩ : ∃ s c y, u = Text.of "--" ++ (s ++ c :: y) ∧ Blank s ∧
      c ∈ "s[\x7b".toList := by
    cases he with
    | named hs => exact ⟨_, 's', _, rfl, hs, by decide⟩
    | bracketed hs ho =>
      rcases ho with rfl | rfl
      · exact ⟨_, '[', _, rfl, hs, by decide⟩
      · exact ⟨_, '\x7b', _, rfl, hs, by decide⟩
  have hsign : ∀ c ∈ "s[\x7b".toList, Text.isBlank c = false ∧ c ≠ '"' ∧ c ≠ '>' := by decide
  obtain ⟨hblank, hquote, htip⟩ := hsign c hc
  have hnext := h.next (a := a) (r := y ++ r) (by simp [hl, hu]) hs hblank
  simp [hquote, htip] at hnext

theorem not_mergesLabels (h : Forward l) (hl : l = a ++ (u ++ r)) : ¬ MergesLabels b u r v := by
  intro he
  cases he with
  | @separated s first s₁ s₂ second s₃ arrow _ _ _ _ _ _ _ harrow =>
    obtain ⟨q, hafter⟩ := h.afterDashes (a := a) (b := s ++ (first ++ (s₁ ++ (Text.of "--" ++ (s₂ ++
      (second ++ (s₃ ++ (arrow ++ r)))))))) (by simp [hl, Text.of])
    have hcount := hafter.count_le
    have hdashes : (Text.of "--").count '-' = 2 := rfl
    have harrow : 2 ≤ arrow.count '-' := by rcases harrow with rfl | rfl <;> decide
    simp only [List.count_append] at hcount
    omega
  | @piped s first s₁ s₂ q second q' =>
    obtain ⟨q, hafter⟩ := h.afterDashes (a := a) (b := s ++ (Text.of "\"" ++ (first ++ (Text.of "\""
      ++ (s₁ ++ (Text.of "-->" ++ (s₂ ++ (Text.of "|" ++ (q ++ (second ++ (q' ++ (Text.of "|" ++
        r)))))))))))) (by simp [hl, Text.of])
    exact hafter.bar_not_mem (by simp [Text.of]) (by simp [Text.of])

theorem mergeDoubleLabels_eq (h : Forward l) : mergeDoubleLabels l = l := by
  have hseparated : mergeSeparatedLabels l = l :=
    (mergeSeparatedLabels_edits l).eq_of_forall fun s u r v hl he ↦
      absurd he (not_mergesLabels h hl)
  have hpiped : mergePipeLabels l = l :=
    (mergePipeLabels_edits l).eq_of_forall fun s u r v hl he ↦ absurd he (not_mergesLabels h hl)
  rw [mergeDoubleLabels, hseparated, hpiped]

theorem Forward.no_ident (h : Forward l) (hl : l = a ++ (Text.of "--" ++ (s ++ (u ++ r))))
    (hs : Blank s) (hu : IsIdent u) : False := by
  obtain ⟨c, u, rfl⟩ := List.exists_cons_of_ne_nil hu.1
  have hc : isIdentChar c := hu.2 c (by simp)
  rcases h.next hl hs (not_isBlank_of_isIdentChar hc) with rfl | ⟨rfl, -⟩
  · exact absurd hc (by decide)
  · exact absurd hc (by decide)

theorem promoteDoubleDash_eq (h : Forward l) : promoteDoubleDash l = l := by
  refine (promoteDoubleDash_edits l).eq_of_forall fun a u r v hl he ↦ ?_
  cases he with
  | @mk s _ s' s'' _ hs htarget =>
    obtain ⟨id, label, rfl, hid, -⟩ := htarget
    refine (h.no_ident (a := a) (r := label ++ (s' ++ (Text.of ";" ++ (s'' ++ r)))) ?_ hs hid).elim
    simp [hl]

theorem quoteEdgeLabels_eq (h : Forward l) : quoteEdgeLabels l = l := by
  refine (quoteEdgeLabels_edits l).eq_of_forall fun a u r v hl he ↦ ?_
  cases he with
  | @mk s _ s' arrow _ hs hlabel _ harrow =>
    obtain ⟨c, x, rfl, hblank, hquote, -⟩ := hlabel
    have hdash : '-' ∈ arrow := by rcases harrow with rfl | rfl <;> decide
    have hnext := h.next (a := a) (c := c) (r := x ++ (s' ++ (arrow ++ r))) (by simp [hl]) hs hblank
    simp [hquote, hdash] at hnext

theorem splitIntermediateNodes_eq (h : Forward l) : splitIntermediateNodes l = l := by
  refine (splitIntermediateNodes_cases l).resolve_right fun hsplits ↦ ?_
  generalize splitIntermediateNodes l = l' at hsplits
  cases hsplits with
  | @mk indent source s s₁ _ s₂ arrow s₃ target s₄ e _ _ _ hs₁ hmiddle =>
    obtain ⟨id, label, rfl, hid, -⟩ := hmiddle
    refine h.no_ident (a := indent ++ (source ++ s))
      (r := label ++ (s₂ ++ (arrow ++ (s₃ ++ (target ++ (s₄ ++ e)))))) ?_ hs₁.2 hid
    simp

end DiagramRepair.Flowchart
