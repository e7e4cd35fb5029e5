import DiagramRepair.Proofs.Line.Normal

namespace DiagramRepair.Line

open Pattern

variable {c : Char} {d : Nat} {l l' t t' u : Text} {prev prev' : Option Char}

def OpensTail (t : Text) : Prop := t = ['"'] ∨ ∃ r, t = '"' :: ';' :: r

theorem OpensTail.exists_cons (h : OpensTail t) : ∃ r, t = '"' :: r := by
  rcases h with rfl | ⟨r, rfl⟩ <;> exact ⟨_, rfl⟩

theorem opensTail_cons_iff : OpensTail (c :: t) ↔ c = '"' ∧ (t = [] ∨ t.head? = some ';') := by
  cases t <;> simp [OpensTail]

theorem not_opensTail_of_head? (h : t.head? ≠ some '"') : ¬ OpensTail t := by
  rintro (rfl | ⟨r, rfl⟩) <;> simp at h

theorem length_closeBeforeTerminator (t : Text) :
    (closeBeforeTerminator t).length = t.length := by
  fun_induction closeBeforeTerminator t <;> simp_all

theorem closeAtEnd_append (u : Text) : closeAtEnd (u ++ ['[', '"']) = u ++ ['"', ']'] := by
  have hends : Text.endsWith (u ++ ['[', '"']) ['[', '"'] :=
    List.isSuffixOf_iff_suffix.mpr (List.suffix_append _ _)
  rw [closeAtEnd, if_pos hends]
  simp

theorem closeAtEnd_of_not_suffix (h : ¬ ['[', '"'] <:+ t) : closeAtEnd t = t :=
  if_neg fun hends ↦ h (List.isSuffixOf_iff_suffix.mp hends)

theorem closeAtEnd_cons (h : c :: t ≠ ['[', '"']) : closeAtEnd (c :: t) = c :: closeAtEnd t := by
  by_cases hends : ['[', '"'] <:+ t
  · obtain ⟨u, rfl⟩ := hends
    rw [← List.cons_append, closeAtEnd_append, closeAtEnd_append, List.cons_append]
  · have hcons : ¬ ['[', '"'] <:+ c :: t := by
      rw [List.suffix_cons_iff]
      exact not_or.mpr ⟨Ne.symm h, hends⟩
    rw [closeAtEnd_of_not_suffix hends, closeAtEnd_of_not_suffix hcons]

theorem cleanLabelTail_cons (h : c = '[' → ¬ OpensTail t) :
    cleanLabelTail (c :: t) = c :: cleanLabelTail t := by
  have hclose : closeBeforeTerminator (c :: t) = c :: closeBeforeTerminator t := by
    rw [closeBeforeTerminator]
    exact fun r hc ht ↦ h hc (.inr ⟨r, ht⟩)
  rw [cleanLabelTail, hclose, closeAtEnd_cons, cleanLabelTail]
  intro heq
  obtain ⟨rfl, ht⟩ := List.cons.inj heq
  have hlength : t.length = 1 := by rw [← length_closeBeforeTerminator, ht]; rfl
  obtain ⟨d, rfl⟩ := List.length_eq_one_iff.mp hlength
  have hd : closeBeforeTerminator [d] = [d] := by simp [closeBeforeTerminator]
  exact h rfl (.inl (hd.symm.trans ht))

theorem cleanLabelTail_tail (h : OpensTail ('"' :: t)) :
    cleanLabelTail ('[' :: '"' :: t) = '"' :: ']' :: cleanLabelTail t := by
  rcases h with ht | ⟨r, ht⟩
  · obtain ⟨-, rfl⟩ := List.cons.inj ht
    rfl
  · obtain ⟨-, rfl⟩ := List.cons.inj ht
    have hclose : closeBeforeTerminator (';' :: r) = ';' :: closeBeforeTerminator r := by
      rw [closeBeforeTerminator]
      simp
    rw [cleanLabelTail, closeBeforeTerminator, cleanLabelTail, hclose, closeAtEnd_cons (by simp),
      closeAtEnd_cons (by simp)]

theorem cleanLabelTail_append (h : '[' ∉ u) : cleanLabelTail (u ++ t) = u ++ cleanLabelTail t := by
  induction u with
  | nil => rfl
  | cons c u ih =>
    rw [List.mem_cons, not_or] at h
    rw [List.cons_append, cleanLabelTail_cons fun hc ↦ absurd hc.symm h.1, ih h.2, List.cons_append]

/-- Every tail of the text is closed and all else stays. -/
inductive ClosesTails : Text → Text → Prop
  | nil : ClosesTails [] []
  | tail {t t' : Text} (h : OpensTail ('"' :: t)) :
      ClosesTails t t' → ClosesTails ('[' :: '"' :: t) ('"' :: ']' :: t')
  | keep {c : Char} {t t' : Text} (h : c = '[' → ¬ OpensTail t) :
      ClosesTails t t' → ClosesTails (c :: t) (c :: t')

theorem closesTails_cleanLabelTail : ∀ t, ClosesTails t (cleanLabelTail t)
  | [] => .nil
  | [c] => by
    rw [cleanLabelTail_cons fun _ ↦ not_opensTail_of_head? (by simp)]
    exact .keep (fun _ ↦ not_opensTail_of_head? (by simp)) .nil
  | c :: d :: t => by
    by_cases h : c = '[' → ¬ OpensTail (d :: t)
    · rw [cleanLabelTail_cons h]
      exact .keep h (closesTails_cleanLabelTail (d :: t))
    · obtain ⟨rfl, htail⟩ := Classical.not_imp.mp h
      rw [not_not] at htail
      obtain ⟨r, hr⟩ := htail.exists_cons
      obtain ⟨rfl, -⟩ := List.cons.inj hr
      rw [cleanLabelTail_tail htail]
      exact .tail htail (closesTails_cleanLabelTail t)

def TailsClosed : Text → Prop
  | [] => True
  | c :: t => (c = '[' → ¬ OpensTail t) ∧ TailsClosed t

theorem cleanLabelTail_of_tailsClosed (h : TailsClosed t) : cleanLabelTail t = t := by
  induction t with
  | nil => rfl
  | cons c t ih => rw [cleanLabelTail_cons h.1, ih h.2]

theorem ClosesTails.opensTail (h : ClosesTails t t') (ht' : OpensTail t') : OpensTail t := by
  cases h with
  | nil => exact ht'
  | tail => simp [OpensTail] at ht'
  | @keep c t t' hc hkeep =>
    rcases ht' with ht' | ⟨r, ht'⟩
    · obtain ⟨rfl, rfl⟩ := List.cons.inj ht'
      cases hkeep
      exact .inl rfl
    · obtain ⟨rfl, rfl⟩ := List.cons.inj ht'
      cases hkeep with
      | keep => exact .inr ⟨_, rfl⟩

theorem ClosesTails.tailsClosed (h : ClosesTails t t') : TailsClosed t' := by
  induction h with
  | nil => trivial
  | tail _ _ ih => exact ⟨by simp, by simp, ih⟩
  | keep hc hkeep ih => exact ⟨fun h ht' ↦ hc h (hkeep.opensTail ht'), ih⟩

theorem tailsClosed_cleanLabelTail (t : Text) : TailsClosed (cleanLabelTail t) :=
  (closesTails_cleanLabelTail t).tailsClosed

theorem head?_bracketQuotedFrom (s : QuoteState) (prev : Option Char) (t : Text) :
    (bracketQuotedFrom s prev t).head? = t.head? ∨
      (bracketQuotedFrom s prev t).head? = some '[' := by
  fun_cases bracketQuotedFrom s prev t <;> simp_all

/-- No quote gets lost and none is added. -/
theorem quote_mem_bracketQuotedFrom (s : QuoteState) (prev : Option Char) (t : Text) :
    '"' ∈ bracketQuotedFrom s prev t ↔ '"' ∈ t := by
  fun_induction bracketQuotedFrom s prev t <;> simp_all

/-- Behind a quote the scan adds at most a bracket, which makes no tail of it. -/
theorem opensTail_quote_of_bracketQuotedFrom {s : QuoteState}
    (h : OpensTail ('"' :: bracketQuotedFrom s prev t)) : OpensTail ('"' :: t) := by
  rw [opensTail_cons_iff, ← List.head?_eq_none_iff] at h ⊢
  rcases head?_bracketQuotedFrom s prev t with hhead | hhead
  · rwa [hhead] at h
  · simp [hhead] at h

theorem opensTail_of_bracketQuotedFrom (s : QuoteState) (prev : Option Char) (t : Text) :
    OpensTail (bracketQuotedFrom s prev t) → OpensTail t := by
  fun_cases bracketQuotedFrom s prev t with
  | case1 => exact id
  | case2 => simp [opensTail_cons_iff]
  | case3 => exact opensTail_quote_of_bracketQuotedFrom
  | case7 =>
    intro h
    obtain ⟨rfl, -⟩ := opensTail_cons_iff.mp h
    exact opensTail_quote_of_bracketQuotedFrom h
  | case4 | case5 | case6 | case8 | case9 => simp_all [opensTail_cons_iff]

/-- A label that gets its brackets does not start with a terminator, so its bracket is no tail. -/
theorem not_opensTail_wrapping (h : opensGluedLabel prev t) (prev' : Option Char) :
    ¬ OpensTail ('"' :: bracketQuotedFrom .wrapping prev' t) := by
  cases t with
  | nil => simp [opensGluedLabel] at h
  | cons c t =>
    by_cases hquote : c = '"'
    · simp [bracketQuotedFrom, opensTail_cons_iff, hquote]
    · have hc : c ≠ ';' := by
        rintro rfl
        simp [opensGluedLabel, among] at h
      simp [bracketQuotedFrom, opensTail_cons_iff, hquote, hc]

theorem TailsClosed.bracketQuotedFrom (h : TailsClosed t) (s : QuoteState) (prev : Option Char) :
    TailsClosed (bracketQuotedFrom s prev t) := by
  fun_induction Line.bracketQuotedFrom s prev t with
  | case1 => trivial
  | case2 prev depth t hopens ih =>
    have hglued := (Bool.and_eq_true_iff.mp hopens).2
    exact ⟨fun _ ↦ not_opensTail_wrapping hglued _, by simp, ih h.2⟩
  | case8 prev t ih => exact ⟨by simp, by simp, ih h.2⟩
  | case3 | case4 | case5 | case6 | case7 | case9 =>
    rename_i ih
    exact ⟨fun hc hopens ↦ h.1 hc (opensTail_of_bracketQuotedFrom _ _ _ hopens), ih h.2⟩

/-- Where a second scan stands in what the first one wrote: the label that the first one put into
brackets is an ordinary one. -/
def QuoteState.again : QuoteState → QuoteState
  | .plain depth => .plain depth
  | .quoted depth => .quoted depth
  | .wrapping => .quoted 1

theorem opensGluedLabel_again (hprev : prev'.any isIdentifierChar = prev.any isIdentifierChar) :
    opensGluedLabel prev' (bracketQuotedFrom (.quoted d) (some '"') t) =
      opensGluedLabel prev t := by
  have hhead : (bracketQuotedFrom (.quoted d) (some '"') t).head? = t.head? := by cases t <;> rfl
  have hquote : (bracketQuotedFrom (.quoted d) (some '"') t).contains '"' = t.contains '"' := by
    rw [Bool.eq_iff_iff, List.contains_iff_mem, List.contains_iff_mem, quote_mem_bracketQuotedFrom]
  rw [opensGluedLabel, opensGluedLabel, hprev, hhead, hquote]

/-- A second scan has nothing to do. -/
theorem bracketQuotedFrom_again (s : QuoteState) (prev prev' : Option Char)
    (hprev : prev'.any isIdentifierChar = prev.any isIdentifierChar) (t : Text) :
    bracketQuotedFrom s.again prev' (bracketQuotedFrom s prev t) = bracketQuotedFrom s prev t := by
  have hquote : isIdentifierChar '"' = isIdentifierChar ']' := by decide
  fun_induction bracketQuotedFrom s prev t generalizing prev' with
  | case1 => simp [bracketQuotedFrom]
  | case2 depth prev t hopens ih =>
    -- the second scan meets the quote behind one open bracket
    obtain ⟨rfl, -⟩ : depth = 0 ∧ opensGluedLabel prev t := by simpa using hopens
    simp only [QuoteState.again] at ih ⊢
    simp [bracketQuotedFrom, ih]
  | case3 depth prev t hopens ih =>
    rw [← opensGluedLabel_again (d := depth) hprev] at hopens
    simp only [QuoteState.again] at ih ⊢
    rw [bracketQuotedFrom, if_pos rfl, if_neg hopens, ih _ rfl]
  | case4 | case5 | case6 =>
    rename_i ih
    simp only [QuoteState.again] at ih ⊢
    simp_all [bracketQuotedFrom]
  | case7 depth prev c t ih =>
    by_cases hc : c = '"' <;> simp_all [bracketQuotedFrom, QuoteState.again]
  | case8 prev t ih =>
    simp only [QuoteState.again] at ih ⊢
    simp [bracketQuotedFrom, ih, hquote]
  | case9 prev c t hc ih =>
    simp only [QuoteState.again] at ih ⊢
    simp [bracketQuotedFrom, hc, ih]

theorem bracketQuotedLabels_bracketQuotedLabels (l : Text) :
    bracketQuotedLabels (bracketQuotedLabels l) = bracketQuotedLabels l :=
  bracketQuotedFrom_again (.plain 0) none none rfl l

def settlePass (l : Text) : Text := cleanLabelTail (bracketQuotedLabels l)

/-- The first pass may close a tail in the middle of a label, and the second bracket what is glued
behind it. The third finds nothing. -/
theorem settlePass_settled (l : Text) :
    settlePass (settlePass (settlePass l)) = settlePass (settlePass l) := by
  have hscan : ∀ t, TailsClosed t → settlePass t = bracketQuotedLabels t := fun t ht ↦
    cleanLabelTail_of_tailsClosed (ht.bracketQuotedFrom (.plain 0) none)
  have hfirst : TailsClosed (settlePass l) := tailsClosed_cleanLabelTail _
  have hsecond : TailsClosed (settlePass (settlePass l)) := tailsClosed_cleanLabelTail _
  calc settlePass (settlePass (settlePass l))
      = bracketQuotedLabels (settlePass (settlePass l)) := hscan _ hsecond
    _ = bracketQuotedLabels (bracketQuotedLabels (settlePass l)) := by rw [hscan _ hfirst]
    _ = bracketQuotedLabels (settlePass l) := bracketQuotedLabels_bracketQuotedLabels _
    _ = settlePass (settlePass l) := (hscan _ hfirst).symm

theorem settleLabels_of_settled (h : settlePass l = l) (passes : Nat) :
    settleLabels passes l = l := by
  cases passes with
  | zero => rfl
  | succ passes =>
    rw [settlePass] at h
    simp only [settleLabels, h, if_true]

theorem settleLabels_succ (passes : Nat) (l : Text) :
    settleLabels (passes + 1) l = settleLabels passes (settlePass l) := by
  rw [settleLabels]
  split
  · rename_i hl
    rw [settleLabels_of_settled (congrArg settlePass hl)]
    rfl
  · rfl

theorem settleLabels_eq (passes : Nat) (l : Text) :
    settleLabels (passes + 2) l = settlePass (settlePass l) := by
  rw [settleLabels_succ, settleLabels_succ, settleLabels_of_settled (settlePass_settled l)]

/-- The loop without a bound: passes are made as long as they change the line. -/
inductive SettlesTo : Text → Text → Prop
  | stop {l : Text} (h : settlePass l = l) : SettlesTo l l
  | again {l l' : Text} (h : settlePass l ≠ l) : SettlesTo (settlePass l) l' → SettlesTo l l'

theorem SettlesTo.of_pass (h : SettlesTo (settlePass l) l') : SettlesTo l l' := by
  by_cases hl : settlePass l = l
  · rwa [hl] at h
  · exact .again hl h

theorem settlesTo_iff : SettlesTo l l' ↔ l' = settlePass (settlePass l) := by
  constructor
  · intro h
    induction h with
    | stop h => rw [h, h]
    | again _ _ ih => rw [ih, settlePass_settled]
  · rintro rfl
    exact .of_pass (.of_pass (.stop (settlePass_settled _)))

/-- Every line has settled after two passes, so the bound on their number never shows. -/
theorem settleLabels_settles (l : Text) :
    settlePass (settlePass (settlePass l)) = settlePass (settlePass l) ∧
      settlePass (settleLabels maxPasses l) = settleLabels maxPasses l ∧
      (∀ passes, maxPasses ≤ passes → settleLabels passes l = settleLabels maxPasses l) ∧
      ∀ l', SettlesTo l l' ↔ l' = settleLabels maxPasses l := by
  have hloop : settleLabels maxPasses l = settlePass (settlePass l) := settleLabels_eq 2 l
  refine ⟨settlePass_settled l, ?_, fun passes hpasses ↦ ?_, fun l' ↦ ?_⟩
  · rw [hloop, settlePass_settled]
  · obtain ⟨n, rfl⟩ := Nat.exists_eq_add_of_le' hpasses
    rw [hloop]
    exact settleLabels_eq (n + 2) l
  · rw [hloop, settlesTo_iff]

/-- One pass is not enough: the label behind `C` shows only once the tail before it is closed. -/
example : settlePass (Text.of "A[\";B\"C\"x\"") = Text.of "A\"];B\"C\"x\"" ∧
    settlePass (Text.of "A\"];B\"C\"x\"") = Text.of "A\"];B\"C[\"x\"]" := by decide

end DiagramRepair.Line
