import DiagramRepair.Block.Fence
import DiagramRepair.Proofs.Rule.Words
import DiagramRepair.Proofs.Text.Lines

namespace DiagramRepair

open Pattern

variable {l l' s t u r : Text} {c : Char}

namespace Fence

def IsSignWord (w : Text) : Prop :=
  (∃ s s', w = '(' :: (s ++ (Text.of "mermaid" ++ (s' ++ [')']))) ∧
  Blank s ∧ Blank s') ∨ w = Text.of "mermaid"

def IsSign (u : Text) : Prop := ∃ s w, u = Text.of "```" ++ (s ++ w) ∧ Blank s ∧ IsSignWord w

theorem takes_signWord {b u r : Text} {gs : Groups} :
    (sign "(" ++ blanks ++ sign "mermaid" ++ blanks ++ sign ")" ||| sign "mermaid").Takes b u r gs ↔
      IsSignWord u ∧ gs = [] := by
  simp only [takes_or, takes_append_sign, takes_append_blanks, takes_sign, IsSignWord, or_and_right,
    existsAndEq, true_and, List.append_assoc]
  refine or_congr_left ⟨?_, ?_⟩
  · rintro ⟨s', s, rfl, hs', hs, hgs⟩
    exact ⟨⟨s, s', by simp [Text.of], hs, hs'⟩, hgs⟩
  · rintro ⟨⟨s, s', rfl, hs, hs'⟩, hgs⟩
    exact ⟨s', s, by simp [Text.of], hs', hs, hgs⟩

theorem takes_openingPattern {b u r : Text} {gs : Groups} :
    openingPattern.Takes b u r gs ↔ b = [] ∧ IsSign u ∧ gs = [] := by
  simp only [openingPattern, takes_append_of (fun _ _ _ _ ↦ takes_signWord), takes_append_blanks,
    takes_append_sign, takes_textStart, existsAndEq, true_and, List.append_assoc, List.nil_append]
  constructor
  · rintro ⟨w, s, rfl, hw, hs, hb, hgs⟩
    exact ⟨hb, ⟨s, w, rfl, hs, hw⟩, hgs⟩
  · rintro ⟨hb, ⟨s, w, rfl, hs, hw⟩, hgs⟩
    exact ⟨w, s, rfl, hw, hs, hb, hgs⟩

theorem steady_openingPattern : openingPattern.steady := by decide

theorem IsSign.exists_snoc (h : IsSign u) :
    (∃ v, u = '`' :: v) ∧ ∃ v c, u = v ++ [c] ∧ Text.isBlank c = false := by
  obtain ⟨s, w, rfl, -, hw⟩ := h
  refine ⟨⟨_, rfl⟩, ?_⟩
  rcases hw with ⟨s₁, s₂, rfl, -⟩ | rfl
  · exact ⟨Text.of "```" ++ (s ++ '(' :: (s₁ ++ (Text.of "mermaid" ++ s₂))), ')', by simp,
      by decide⟩
  · exact ⟨Text.of "```" ++ (s ++ Text.of "mermai"), 'd', by simp [Text.of], by decide⟩

theorem isOpening_iff :
    isOpening l ↔ ∃ s u r, l = s ++ (u ++ r) ∧ Blank s ∧ IsSign u := by
  rw [isOpening, isMatch_iff steady_openingPattern]
  simp only [takes_openingPattern]
  constructor
  · rintro ⟨u, r, gs, htrim, -, hu, -⟩
    obtain ⟨s, s', hl, hs, -⟩ := Text.exists_trim l
    exact ⟨s, u, r ++ s', by rw [hl, htrim, List.append_assoc], hs, hu⟩
  · rintro ⟨s, u, r, rfl, hs, hu⟩
    obtain ⟨⟨v, hv⟩, w, c, hw, hc⟩ := hu.exists_snoc
    have hstart : Text.trimStart (s ++ (u ++ r)) = u ++ r := by
      refine Text.trimStart_append hs fun d hd ↦ ?_
      rw [hv, List.cons_append, List.head?_cons, Option.mem_some_iff] at hd
      rw [← hd]
      decide
    have htrim : Text.trim (s ++ (u ++ r)) = u ++ Text.trimEnd r := by
      rw [Text.trim, hstart, Text.trimEnd_append]
      simpa [hw] using hc
    exact ⟨u, Text.trimEnd r, [], htrim, trivial, hu, rfl⟩

theorem isClosing_iff : isClosing l ↔ ∃ s s', l = s ++ (closing ++ s') ∧ Blank s ∧ Blank s' := by
  rw [isClosing, beq_iff_eq]
  constructor
  · intro h
    obtain ⟨s, s', hl, hs, hs'⟩ := Text.exists_trim l
    exact ⟨s, s', by rw [hl, h], hs, hs'⟩
  · rintro ⟨s, s', rfl, hs, hs'⟩
    have hhead : ∀ c ∈ (closing ++ s').head?, Text.isBlank c = false := by
      rintro c ⟨⟩
      decide
    rw [Text.trim, Text.trimStart_append hs hhead, Text.trimEnd_append (by decide),
      Text.trimEnd_of_blank hs', List.append_nil]

theorem isSign_opening : IsSign opening :=
  ⟨[], Text.of "mermaid", rfl, fun _ h ↦ absurd h List.not_mem_nil, .inr rfl⟩

theorem isOpening_normalizeOpening (h : isOpening l) : isOpening (normalizeOpening l) := by
  have hindent : Blank (l.takeWhile Text.isBlank) :=
    fun c hc ↦ List.all_eq_true.mp List.all_takeWhile c hc
  rw [normalizeOpening]
  rcases replaceFirst_eq steady_openingPattern (fun _ ↦ opening) (Text.trimStart l) with
    ⟨-, he⟩ | ⟨m, ⟨gs, hm, -⟩, -, -, he⟩
  · rwa [he, Text.trimStart, List.takeWhile_append_dropWhile]
  · obtain ⟨hb, -, -⟩ := takes_openingPattern.mp hm
    rw [he, hb]
    exact isOpening_iff.mpr ⟨_, opening, m.after, rfl, hindent, isSign_opening⟩

theorem mem_normalizeOpening (h : c ∈ normalizeOpening l) : c ∈ l ∨ c ∈ opening := by
  have hsub : ∀ c ∈ Text.trimStart l, c ∈ l := fun c hc ↦ (List.dropWhile_sublist _).subset hc
  rw [normalizeOpening, List.mem_append] at h
  rcases h with h | h
  · exact .inl ((List.takeWhile_sublist _).subset h)
  · rcases replaceFirst_eq steady_openingPattern (fun _ ↦ opening) (Text.trimStart l) with
      ⟨-, he⟩ | ⟨m, -, -, ht, he⟩
    · exact .inl (hsub c (he ▸ h))
    · rw [he] at h
      rw [ht] at hsub
      simp only [List.mem_append] at h hsub
      rcases h with h | h | h
      · exact .inl (hsub c (.inl h))
      · exact .inr h
      · exact .inl (hsub c (.inr (.inr h)))

end Fence

def isMark (c : Char) : Bool := among "-|[\"" c

def lead (l : Text) : Text := Text.trimEnd (l.takeWhile fun c ↦ !isMark c)

/-- The lines begin alike, and both go on to a mark or neither does. -/
def SameLead (l l' : Text) : Prop :=
  lead l = lead l' ∧ ((∀ c ∈ l, isMark c = false) ↔ ∀ c ∈ l', isMark c = false)

theorem SameLead.symm (h : SameLead l l') : SameLead l' l := ⟨h.1.symm, h.2.symm⟩

theorem SameLead.trans {l'' : Text} (h : SameLead l l') (h' : SameLead l' l'') : SameLead l l'' :=
  ⟨h.1.trans h'.1, h.2.trans h'.2⟩

theorem exists_lead (l : Text) : ∃ s r, l = lead l ++ (s ++ r) ∧ Blank s := by
  obtain ⟨s, hs, hblank⟩ := Text.exists_trimEnd (l.takeWhile fun c ↦ !isMark c)
  refine ⟨s, l.dropWhile fun c ↦ !isMark c, ?_, hblank⟩
  rw [← List.append_assoc, lead, ← hs, List.takeWhile_append_dropWhile]

theorem not_isMark_of_isBlank (h : Text.isBlank c) : isMark c = false := by
  rw [Bool.eq_false_iff]
  intro hc
  have hmarks : ∀ c ∈ "-|[\"".toList, Text.isBlank c = false := by decide
  simp [hmarks c (among_eq_true.mp hc)] at h

theorem takeWhile_append (hs : ∀ c ∈ s, isMark c = false) :
    (s ++ t).takeWhile (fun c ↦ !isMark c) = s ++ t.takeWhile fun c ↦ !isMark c :=
  List.takeWhile_append_of_pos fun c hc ↦ by simp [hs c hc]

theorem lead_of_not_isMark (hl : ∀ c ∈ l, isMark c = false) : lead l = Text.trimEnd l := by
  have h := takeWhile_append (t := []) hl
  simp only [List.append_nil, List.takeWhile_nil] at h
  rw [lead, h]

namespace Fence

theorem IsSign.not_isMark (h : IsSign u) : ∀ c ∈ u, isMark c = false := by
  have hblank : ∀ {s}, Blank s → ∀ c ∈ s, isMark c = false :=
    fun hs c hc ↦ not_isMark_of_isBlank (hs c hc)
  obtain ⟨s, w, rfl, hs, hw⟩ := h
  have hw : ∀ c ∈ w, isMark c = false := by
    rcases hw with ⟨s₁, s₂, rfl, hs₁, hs₂⟩ | rfl
    · intro c hc
      simp only [List.mem_cons, List.mem_append, List.not_mem_nil, or_false] at hc
      rcases hc with rfl | hc | hc | hc | rfl
      · decide
      · exact hblank hs₁ c hc
      · revert c
        decide
      · exact hblank hs₂ c hc
      · decide
    · decide
  have hticks : ∀ c ∈ Text.of "```", isMark c = false := by decide
  intro c hc
  rcases List.mem_append.mp hc with hc | hc
  · exact hticks c hc
  · rcases List.mem_append.mp hc with hc | hc
    · exact hblank hs c hc
    · exact hw c hc

theorem isOpening_of_sameLead (h : SameLead l l') (hl : isOpening l) : isOpening l' := by
  obtain ⟨s, u, r, rfl, hs, hu⟩ := isOpening_iff.mp hl
  obtain ⟨-, v, c, hv, hc⟩ := hu.exists_snoc
  have hunmarked : ∀ c ∈ s ++ u, isMark c = false := by
    intro c hc
    rcases List.mem_append.mp hc with hc | hc
    · exact not_isMark_of_isBlank (hs c hc)
    · exact hu.not_isMark c hc
  have hlast : ∀ d ∈ (s ++ u).getLast?, Text.isBlank d = false := by simpa [hv] using hc
  have hlead : lead (s ++ (u ++ r)) = s ++ (u ++ Text.trimEnd (r.takeWhile fun c ↦ !isMark c)) := by
    rw [lead, ← List.append_assoc, takeWhile_append hunmarked, Text.trimEnd_append hlast,
      List.append_assoc]
  obtain ⟨s', r', hl', -⟩ := exists_lead l'
  rw [← h.1, hlead] at hl'
  exact isOpening_iff.mpr ⟨s, u, _, by rw [hl', List.append_assoc, List.append_assoc], hs, hu⟩

theorem isClosing_of_sameLead (h : SameLead l l') (hl : isClosing l) : isClosing l' := by
  obtain ⟨s, s', rfl, hs, hs'⟩ := isClosing_iff.mp hl
  have hticks : ∀ c ∈ closing, isMark c = false := by decide
  have hunmarked : ∀ c ∈ s ++ (closing ++ s'), isMark c = false := by
    intro c hc
    rcases List.mem_append.mp hc with hc | hc
    · exact not_isMark_of_isBlank (hs c hc)
    · rcases List.mem_append.mp hc with hc | hc
      · exact hticks c hc
      · exact not_isMark_of_isBlank (hs' c hc)
  have hlast : ∀ d ∈ (s ++ closing).getLast?, Text.isBlank d = false := by
    simp [closing, Text.of]
    decide
  have hlead : lead (s ++ (closing ++ s')) = s ++ closing := by
    rw [lead_of_not_isMark hunmarked, ← List.append_assoc, Text.trimEnd_append hlast,
      Text.trimEnd_of_blank hs', List.append_nil]
  obtain ⟨s'', hl', hs''⟩ := Text.exists_trimEnd l'
  rw [← lead_of_not_isMark (h.2.mp hunmarked), ← h.1, hlead] at hl'
  exact isClosing_iff.mpr ⟨s, s'', by rw [hl', List.append_assoc], hs, hs''⟩

end Fence

end DiagramRepair
