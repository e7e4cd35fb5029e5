import DiagramRepair.Proofs.Line.Mark
import DiagramRepair.Proofs.Line.Settle

namespace DiagramRepair.Line

open Pattern

variable {c : Char} {d : Nat} {k s t tail u v x : Text} {prev : Option Char} {p q : Part}
  {ps qs : List Part}

def lastOf (prev : Option Char) : Text → Option Char
  | [] => prev
  | c :: t => lastOf (some c) t

theorem lastOf_append (prev : Option Char) (u t : Text) :
    lastOf prev (u ++ t) = lastOf (lastOf prev u) t := by
  induction u generalizing prev with
  | nil => rfl
  | cons c u ih => exact ih (some c)

theorem lastOf_concat (prev : Option Char) (u : Text) (c : Char) :
    lastOf prev (u ++ [c]) = some c := by
  rw [lastOf_append]
  rfl

def quoteState : (inside : Bool) → (depth : Nat) → QuoteState
  | true, depth => .quoted depth
  | false, depth => .plain depth

theorem bracketQuotedFrom_run (hk : ∀ c ∈ k, c ≠ '"' ∧ c ≠ '[') (d : Nat) (prev : Option Char) :
    bracketQuotedFrom (.plain d) prev (k ++ t) =
      k ++ bracketQuotedFrom (.plain (d - k.count ']')) (lastOf prev k) t := by
  induction k generalizing d prev with
  | nil => rfl
  | cons c k ih =>
    obtain ⟨⟨hquote, hopen⟩, hk⟩ := List.forall_mem_cons.mp hk
    rw [List.cons_append, bracketQuotedFrom, if_neg hquote, if_neg hopen]
    split
    · rename_i hclose
      rw [ih hk, hclose, List.count_cons_self, Nat.sub_sub, Nat.add_comm]
      rfl
    · rename_i hclose
      rw [ih hk, List.count_cons_of_ne hclose]
      rfl

theorem bracketQuotedFrom_inside (hu : '"' ∉ u) (d : Nat) (prev : Option Char) :
    bracketQuotedFrom (.quoted d) prev (u ++ t) =
      u ++ bracketQuotedFrom (.quoted d) (lastOf prev u) t := by
  induction u generalizing prev with
  | nil => rfl
  | cons c u ih =>
    rw [List.mem_cons, not_or] at hu
    rw [List.cons_append, bracketQuotedFrom, if_neg (Ne.symm hu.1), ih hu.2]
    rfl

theorem bracketQuotedFrom_quoted (hx : '"' ∉ x) (d : Nat) (prev : Option Char) :
    bracketQuotedFrom (.quoted d) prev (x ++ '"' :: t) =
      x ++ '"' :: bracketQuotedFrom (.plain d) (some '"') t := by
  rw [bracketQuotedFrom_inside hx, bracketQuotedFrom, if_pos rfl]

theorem bracketQuotedFrom_wrapping (hx : '"' ∉ x) (prev : Option Char) :
    bracketQuotedFrom .wrapping prev (x ++ '"' :: t) =
      x ++ '"' :: ']' :: bracketQuotedFrom (.plain 0) (some '"') t := by
  induction x generalizing prev with
  | nil => rfl
  | cons c x ih =>
    rw [List.mem_cons, not_or] at hx
    rw [List.cons_append, bracketQuotedFrom, if_neg (Ne.symm hx.1), ih hx.2]
    rfl

theorem bracketQuotedFrom_quote (inside : Bool) (prev : Option Char) (hd : d ≠ 0) :
    bracketQuotedFrom (quoteState inside d) prev ('"' :: t) =
      '"' :: bracketQuotedFrom (quoteState (!inside) d) (some '"') t := by
  cases inside <;> simp [quoteState, bracketQuotedFrom, hd]

theorem bracketQuotedFrom_plain (inside : Bool) (d : Nat) (prev : Option Char) (hquote : c ≠ '"')
    (hc : c ≠ '[' ∧ c ≠ ']') :
    bracketQuotedFrom (quoteState inside d) prev (c :: t) =
      c :: bracketQuotedFrom (quoteState inside d) (some c) t := by
  cases inside <;> simp [quoteState, bracketQuotedFrom, hquote, hc]

theorem bracketQuotedFrom_group {y : Text} (inside : Bool) (prev : Option Char) (hquote : '"' ∉ y)
    (hopen : '[' ∉ y) (hclose : ']' ∉ y) :
    bracketQuotedFrom (quoteState inside d) prev ('[' :: (y ++ ']' :: t)) =
      '[' :: (y ++ ']' :: bracketQuotedFrom (quoteState inside d) (some ']') t) := by
  cases inside with
  | true =>
    have hinside := bracketQuotedFrom_inside (u := '[' :: (y ++ [']'])) (t := t)
      (by simp [hquote]) d prev
    rw [← List.cons_append, lastOf_concat] at hinside
    simpa [quoteState] using hinside
  | false =>
    have hrun : ∀ c ∈ y, c ≠ '"' ∧ c ≠ '[' := fun c hc ↦
      ⟨fun h ↦ hquote (h ▸ hc), fun h ↦ hopen (h ▸ hc)⟩
    simp [quoteState, bracketQuotedFrom, bracketQuotedFrom_run hrun, List.count_eq_zero.mpr hclose]

/-- A text whose brackets come in groups leaves the depth as it is, and every quote in it changes
sides. Outside brackets it must hold none, as a label could start there. -/
theorem bracketQuotedFrom_boxed (hx : Boxed x) (hd : d ≠ 0 ∨ '"' ∉ x) (inside : Bool)
    (prev : Option Char) :
    bracketQuotedFrom (quoteState inside d) prev (x ++ t) =
      x ++ bracketQuotedFrom (quoteState (inside ^^ (x.count '"' % 2 == 1)) d) (lastOf prev x) t := by
  induction hx generalizing inside prev with
  | nil => simp [lastOf]
  | @plain c x hc _ ih =>
    by_cases hquote : c = '"'
    · subst hquote
      have hd : d ≠ 0 := by simpa using hd
      have hparity : (inside ^^ (List.count '"' ('"' :: x) % 2 == 1)) =
          (!inside ^^ (x.count '"' % 2 == 1)) := by
        rw [List.count_cons_self]
        rcases Nat.mod_two_eq_zero_or_one (x.count '"') with h | h <;>
          simp [Nat.add_mod, h]
      rw [List.cons_append, bracketQuotedFrom_quote _ _ hd, ih (.inl hd), hparity]
      rfl
    · have hd : d ≠ 0 ∨ '"' ∉ x := hd.imp_right fun h hmem ↦ h (List.mem_cons_of_mem c hmem)
      rw [List.cons_append, bracketQuotedFrom_plain _ _ _ hquote hc, ih hd,
        List.count_cons_of_ne hquote]
      rfl
  | @group y x hy _ ih =>
    have hnot := not_mem_of_group hy
    have hd : d ≠ 0 ∨ '"' ∉ x := hd.imp_right fun h hmem ↦ h (by simp [hmem])
    have hcount : ('[' :: (y ++ ']' :: x)).count '"' = x.count '"' := by
      simp [List.count_eq_zero.mpr (hnot '"' (by decide))]
    have hlast : lastOf prev ('[' :: (y ++ ']' :: x)) = lastOf (some ']') x := by
      simp [lastOf, lastOf_append]
    rw [hcount, hlast, List.cons_append, List.append_assoc, List.cons_append,
      bracketQuotedFrom_group _ _ (hnot _ (by decide)) (hnot _ (by decide)) (hnot _ (by decide)),
      ih hd]
    simp

theorem bracketQuotedFrom_label (d : Nat) (prev : Option Char) (hx : '"' ∉ x) :
    bracketQuotedFrom (.plain d) prev ('[' :: '"' :: (x ++ '"' :: t)) =
      '[' :: '"' :: (x ++ '"' :: bracketQuotedFrom (.plain (d + 1)) (some '"') t) := by
  simp [bracketQuotedFrom, bracketQuotedFrom_quoted hx]

theorem bracketQuotedFrom_standing (d : Nat) (prev : Option Char) (hx : '"' ∉ x)
    (h : d = 0 → opensGluedLabel prev (x ++ '"' :: t) = false) :
    bracketQuotedFrom (.plain d) prev ('"' :: (x ++ '"' :: t)) =
      '"' :: (x ++ '"' :: bracketQuotedFrom (.plain d) (some '"') t) := by
  have hopens : (d = 0 && opensGluedLabel prev (x ++ '"' :: t)) = false := by simpa using h
  rw [bracketQuotedFrom, if_pos rfl, hopens, if_neg (by simp), bracketQuotedFrom_quoted hx]

theorem opensGluedLabel_eq (hprev : prev.any isIdentifierChar = false) :
    opensGluedLabel (lastOf prev k) (x ++ '"' :: t) = gluedTo k x := by
  have hhead : (x ++ '"' :: t).head? = (x ++ ['"']).head? := by cases x <;> rfl
  rcases List.eq_nil_or_concat k with rfl | ⟨k, c, rfl⟩
  · simp [opensGluedLabel, gluedTo, lastOf, hprev]
  · simp [opensGluedLabel, gluedTo, lastOf_concat, hhead]

theorem plain_of_blank (hs : Blank s) : ∀ c ∈ s, c ≠ '"' ∧ c ≠ '[' :=
  fun _ hc ↦ ⟨ne_of_class (hs _ hc) (by decide), ne_of_class (hs _ hc) (by decide)⟩

theorem lastOf_blank (hs : Blank s) (hprev : prev.any isIdentifierChar = false) :
    (lastOf prev s).any isIdentifierChar = false := by
  rcases List.eq_nil_or_concat s with rfl | ⟨s, c, rfl⟩
  · exact hprev
  · rw [List.concat_eq_append, lastOf_concat]
    exact not_isWordChar_of_isBlank (hs c (by simp))

/-- The scan goes over a mark without a change, unless it is glued and outside brackets. -/
theorem bracketQuotedFrom_text {m : Mark} (hm : m.Fits k)
    (hopens : ∀ x t, m = .standing x → d = 0 → opensGluedLabel prev (x ++ '"' :: t) = false) :
    ∃ d' prev', prev'.any isIdentifierChar = false ∧ (¬ m.IsDangling → ¬ m.IsBroken → d' = d) ∧
      ∀ t, bracketQuotedFrom (.plain d) prev (m.text ++ t) =
        m.text ++ bracketQuotedFrom (.plain d') prev' t := by
  have hquote : (some '"').any isIdentifierChar = false := by decide
  have hclose : (some ']').any isIdentifierChar = false := by decide
  have hbar : (some '|').any isIdentifierChar = false := by decide
  have hblank : (some ' ').any isIdentifierChar = false := by decide
  cases m with
  | label x =>
    refine ⟨d, some ']', hclose, fun _ _ ↦ rfl, fun t ↦ ?_⟩
    have hboxed := bracketQuotedFrom_boxed (d := d + 1) (t := ']' :: t) hm.boxed (by simp) false
      (some '[')
    simp only [quoteState, hm.quotes] at hboxed
    simp [Mark.text, bracketQuotedFrom, hboxed]
  | quoted x =>
    refine ⟨d, some ']', hclose, fun _ _ ↦ rfl, fun t ↦ ?_⟩
    simp [Mark.text, bracketQuotedFrom_label d prev hm.1.unquoted, bracketQuotedFrom]
  | standing x =>
    refine ⟨d, some '"', hquote, fun _ _ ↦ rfl, fun t ↦ ?_⟩
    simpa [Mark.text] using bracketQuotedFrom_standing d prev hm.1.unquoted (hopens x t rfl)
  | bar x =>
    refine ⟨d, some '|', hbar, fun _ _ ↦ rfl, fun t ↦ ?_⟩
    have hboxed := bracketQuotedFrom_boxed (d := d) (t := '|' :: t) hm.1.boxed (.inr hm.1.unquoted)
      false (some '|')
    simp only [quoteState, List.count_eq_zero.mpr hm.1.unquoted] at hboxed
    simp [Mark.text, bracketQuotedFrom, hboxed]
  | quotedBar x =>
    refine ⟨d, some '|', hbar, fun _ _ ↦ rfl, fun t ↦ ?_⟩
    have hfirst := bracketQuotedFrom_run (k := ['|']) (t := '"' :: (x ++ '"' :: '|' :: t))
      (by decide) d prev
    have hlast := bracketQuotedFrom_run (k := ['|']) (t := t) (by decide) d (some '"')
    have hstanding := bracketQuotedFrom_standing d (some '|') (t := '|' :: t) hm.unquoted
      fun _ ↦ by simp [opensGluedLabel, hbar]
    simp only [List.singleton_append] at hfirst hlast
    simp [Mark.text, hfirst, lastOf, hstanding, hlast]
  | dangling x =>
    refine ⟨d + 1, some '"', hquote, fun h ↦ absurd trivial h, fun t ↦ ?_⟩
    have hlabel := bracketQuotedFrom_label d prev (x := x ++ ['[']) (t := t)
      (by simp [hm.1.unquoted])
    simpa [Mark.text] using hlabel
  | broken s x s' =>
    obtain ⟨hx, -, -, -, hs, hs'⟩ := hm
    have hclosers : ∀ {s}, Blank s → s.count ']' = 0 := fun hs ↦
      List.count_eq_zero.mpr fun h ↦ absurd (hs _ h) (by decide)
    have hdashes : ∀ c ∈ '-' :: '-' :: s, c ≠ '"' ∧ c ≠ '[' := by
      simpa using plain_of_blank hs
    refine ⟨d + 1, _, lastOf_blank hs' hquote, fun _ h ↦ absurd trivial h, fun t ↦ ?_⟩
    have hlabel := bracketQuotedFrom_label d (lastOf prev ('-' :: '-' :: s)) (x := x ++ ['['])
      (t := s' ++ t) (by simp [hx.unquoted])
    rw [bracketQuotedFrom_run (plain_of_blank hs'), hclosers hs'] at hlabel
    have hrun := bracketQuotedFrom_run (t := '[' :: '"' :: (x ++ ['['] ++ '"' :: (s' ++ t)))
      hdashes d prev
    rw [List.count_cons_of_ne (by decide), List.count_cons_of_ne (by decide), hclosers hs,
      Nat.sub_zero, hlabel] at hrun
    simpa [Mark.text] using hrun
  | edge x =>
    refine ⟨d, some ' ', hblank, fun _ _ ↦ rfl, fun t ↦ ?_⟩
    have hfirst := bracketQuotedFrom_run (k := Text.of "-- ") (t := '"' :: (x ++ '"' :: ' ' :: t))
      (by decide) d prev
    have hlast := bracketQuotedFrom_run (k := [' ']) (t := t) (by decide) d (some '"')
    have hstanding := bracketQuotedFrom_standing d (some ' ') (t := ' ' :: t) hm.unquoted
      fun _ ↦ by simp [opensGluedLabel, hblank]
    simp only [List.singleton_append] at hlast
    simpa [Mark.text, Text.of, lastOf, hstanding, hlast] using hfirst

/-- What the scan makes of a run and the mark behind it. -/
theorem bracketQuotedFrom_part {m : Mark} (hk : IsRun k) (hm : m.Fits k)
    (hprev : prev.any isIdentifierChar = false) (d : Nat) :
    ∃ m' d' prev', (m' = m ∨ m' = m.bracketed k) ∧ prev'.any isIdentifierChar = false ∧
      (d = 0 → m' = m.bracketed k ∧ (¬ m.IsDangling → ¬ m.IsBroken → d' = 0)) ∧
      ∀ t, bracketQuotedFrom (.plain d) prev (k ++ (m.text ++ t)) =
        k ++ (m'.text ++ bracketQuotedFrom (.plain d') prev' t) := by
  simp only [bracketQuotedFrom_run hk.plain]
  have hopens := fun x t ↦ opensGluedLabel_eq (k := k) (x := x) (t := t) hprev
  have hzero : d = 0 → d - k.count ']' = 0 := fun h ↦ by simp [h]
  by_cases hglued : d - k.count ']' = 0 ∧ ∃ x, m = .standing x ∧ gluedTo k x
  · obtain ⟨hdepth, x, rfl, hglued⟩ := hglued
    have hmark : (Mark.standing x).bracketed k = .quoted x := if_pos hglued
    refine ⟨.quoted x, 0, some '"', .inr hmark.symm, by decide, fun _ ↦ ⟨hmark.symm, fun _ _ ↦ rfl⟩,
      fun t ↦ ?_⟩
    simp [Mark.text, bracketQuotedFrom, hdepth, hopens, hglued,
      bracketQuotedFrom_wrapping hm.1.unquoted]
  · have hnot : ∀ x, m = .standing x → d - k.count ']' = 0 → gluedTo k x = false :=
      fun x hx hdepth ↦ Bool.eq_false_iff.mpr fun h ↦ hglued ⟨hdepth, x, hx, h⟩
    have hnone : ∀ x t, m = .standing x → d - k.count ']' = 0 →
        opensGluedLabel (lastOf prev k) (x ++ '"' :: t) = false :=
      fun x t hx hd ↦ (hopens x t).trans (hnot x hx hd)
    obtain ⟨d', prev', hprev', hdepth, htext⟩ := bracketQuotedFrom_text hm hnone
    refine ⟨m, d', prev', .inl rfl, hprev', fun hd ↦ ⟨?_, fun h h' ↦ ?_⟩, fun t ↦ by rw [htext]⟩
    · cases m with
      | standing x => simp [Mark.bracketed, hnot x rfl (hzero hd)]
      | label | quoted | bar | quotedBar | dangling | broken | edge => rfl
    · rw [hdepth h h', hzero hd]

def Part.Brackets (p q : Part) : Prop := q = p ∨ q = ⟨p.run, p.mark.bracketed p.run⟩

theorem Part.bracketed_of_not_isGlued (h : ¬ p.IsGlued) : p.mark.bracketed p.run = p.mark := by
  obtain ⟨k, m⟩ := p
  cases m with
  | standing x =>
    rw [Mark.bracketed, if_neg]
    exact fun hglued ↦ h ⟨x, rfl, hglued⟩
  | label | quoted | bar | quotedBar | dangling | broken | edge => rfl

theorem eq_mapMarks_of_not_isGlued (h : List.Forall₂ Part.Brackets ps qs)
    (hps : ∀ p ∈ ps, ¬ p.IsGlued) : qs = mapMarks Mark.bracketed ps := by
  induction h with
  | nil => rfl
  | @cons p q ps qs hq _ ih =>
    rw [List.forall_mem_cons] at hps
    have hq : q = ⟨p.run, p.mark.bracketed p.run⟩ := by
      rcases hq with rfl | rfl
      · rw [Part.bracketed_of_not_isGlued hps.1]
      · rfl
    rw [hq, ih hps.2]
    rfl

theorem bracketQuotedFrom_render (h : Orderly ps tail) (d : Nat) (prev : Option Char)
    (hprev : prev.any isIdentifierChar = false) :
    ∃ qs, List.Forall₂ Part.Brackets ps qs ∧
      bracketQuotedFrom (.plain d) prev (render ps tail) = render qs tail ∧
      (d = 0 → (∀ p ∈ ps, ¬ p.mark.IsDangling) → qs = mapMarks Mark.bracketed ps) := by
  induction h generalizing d prev with
  | @nil tail htail =>
    have hrun := bracketQuotedFrom_run htail.plain d prev (t := [])
    exact ⟨[], .nil, by simpa [render, bracketQuotedFrom] using hrun, fun _ _ ↦ rfl⟩
  | @cons p ps tail hrun hfits hprecedes _ ih =>
    obtain ⟨m', d', prev', hm', hprev', hdepth, htext⟩ := bracketQuotedFrom_part hrun hfits hprev d
    obtain ⟨qs, hqs, hrender, hall⟩ := ih d' prev' hprev'
    refine ⟨⟨p.run, m'⟩ :: qs, .cons ?_ hqs, by simp [render, htext, hrender], fun hd hps ↦ ?_⟩
    · rcases hm' with rfl | rfl
      · exact .inl rfl
      · exact .inr rfl
    · obtain ⟨hp, hps⟩ := List.forall_mem_cons.mp hps
      obtain ⟨rfl, hd'⟩ := hdepth hd
      have hqs : qs = mapMarks Mark.bracketed ps := by
        by_cases hbroken : p.mark.IsBroken
        · -- Behind a broken label the scan is inside its bracket, but nothing is glued there.
          obtain ⟨k, m⟩ := p
          cases m with
          | broken => exact eq_mapMarks_of_not_isGlued hqs hprecedes.2
          | label | quoted | standing | bar | quotedBar | dangling | edge => exact hbroken.elim
        · exact hall (hd' hp hbroken) hps
      rw [hqs]
      rfl

theorem cleanLabelTail_boxed (h : Boxed x) : cleanLabelTail (x ++ t) = x ++ cleanLabelTail t := by
  induction h with
  | nil => rfl
  | plain hc _ ih =>
    rw [List.cons_append, cleanLabelTail_cons fun h ↦ absurd h hc.1, ih, List.cons_append]
  | @group y x hy _ ih =>
    have hnot := not_mem_of_group hy
    have htail : ¬ OpensTail (y ++ ']' :: (x ++ t)) := by
      refine not_opensTail_of_head? ?_
      cases y with
      | nil => simp
      | cons c y =>
        rintro ⟨⟩
        exact hnot '"' (by decide) (by simp)
    have hinside : '[' ∉ y ++ [']'] := by simp [hnot '[' (by decide)]
    have hgroup := cleanLabelTail_append (t := x ++ t) hinside
    rw [List.append_assoc, List.singleton_append] at hgroup
    simp [cleanLabelTail_cons fun _ ↦ htail, hgroup, ih]

/-- The opening of a label with quotes stays, as its text does not start with a terminator. -/
theorem cleanLabelTail_label (hx : x.head? ≠ some ';') (ht : t.head? ≠ some ';') (hne : x ++ t ≠ []) :
    cleanLabelTail ('[' :: '"' :: (x ++ t)) = '[' :: '"' :: cleanLabelTail (x ++ t) := by
  have hopens : ¬ OpensTail ('"' :: (x ++ t)) := by
    rintro (heq | ⟨r, heq⟩)
    · exact hne (List.cons.inj heq).2
    · have hhead := congrArg List.head? (List.cons.inj heq).2
      cases x with
      | nil => exact ht hhead
      | cons c x => exact hx hhead
  rw [cleanLabelTail_cons fun _ ↦ hopens, cleanLabelTail_cons fun h ↦ absurd h (by decide)]

theorem head?_ne_of_blank (hs : Blank s) (ht : t.head? = some '-') (hc : c = ';' ∨ c = '"') :
    (s ++ t).head? ≠ some c := by
  cases s with
  | nil =>
    rw [List.nil_append, ht]
    rcases hc with rfl | rfl <;> decide
  | cons d s =>
    have hd := hs d (by simp)
    rintro ⟨⟩
    rcases hc with rfl | rfl <;> exact absurd hd (by decide)

theorem cleanLabelTail_around (hu : '[' ∉ u) (hx : Boxed x) (hv : '[' ∉ v) :
    cleanLabelTail (u ++ (x ++ (v ++ t))) = u ++ (x ++ (v ++ cleanLabelTail t)) := by
  rw [cleanLabelTail_append hu, cleanLabelTail_boxed hx, cleanLabelTail_append hv]

theorem cleanLabelTail_text {m : Mark} (hm : m.Fits k) (hdangling : ¬ m.IsDangling)
    (hbroken : m.IsBroken → t.head? = some '-') :
    cleanLabelTail (m.text ++ t) = m.text ++ cleanLabelTail t := by
  cases m with
  | label x =>
    have hopens : ¬ OpensTail (x ++ ']' :: t) := by
      refine not_opensTail_of_head? ?_
      have hhead : x.head? ≠ some '"' := head?_ne_of_filter (by decide) hm.unquoted
      cases x with
      | nil => simp
      | cons c x => exact hhead
    have hclose := cleanLabelTail_around (u := []) (v := [']']) (t := t) (by simp) hm.boxed
      (by decide)
    simp only [List.nil_append, List.singleton_append] at hclose
    simp [Mark.text, cleanLabelTail_cons fun _ ↦ hopens, hclose]
  | quoted x =>
    have hlabel := cleanLabelTail_label (x := x) (t := '"' :: ']' :: t)
      (head?_ne_of_filter (by decide) hm.1.head) (by simp) (by simp)
    have hclose := cleanLabelTail_around (u := []) (v := ['"', ']']) (t := t) (by simp) hm.1.boxed
      (by decide)
    simp only [List.nil_append, List.cons_append] at hclose
    simp [Mark.text, hlabel, hclose]
  | standing x =>
    simpa [Mark.text] using cleanLabelTail_around (u := ['"']) (v := ['"']) (t := t) (by decide)
      hm.1.boxed (by decide)
  | bar x =>
    simpa [Mark.text] using cleanLabelTail_around (u := ['|']) (v := ['|']) (t := t) (by decide)
      hm.1.boxed (by decide)
  | quotedBar x =>
    simpa [Mark.text] using cleanLabelTail_around (u := ['|', '"']) (v := ['"', '|']) (t := t)
      (by decide) hm.boxed (by decide)
  | dangling x => exact absurd trivial hdangling
  | broken s x s' =>
    obtain ⟨hx, hne, -, hhead, hs, hs'⟩ := hm
    have ht := hbroken trivial
    have hdashes : '[' ∉ '-' :: '-' :: s := by
      simpa using fun h ↦ (plain_of_blank hs '[' h).2 rfl
    have hblank : '[' ∉ s' := fun h ↦ (plain_of_blank hs' '[' h).2 rfl
    have hfirst := cleanLabelTail_append (t := '[' :: '"' :: (x ++ '[' :: '"' :: (s' ++ t))) hdashes
    have hopen := cleanLabelTail_label (x := x) (t := '[' :: '"' :: (s' ++ t)) hhead (by simp)
      (by simp)
    have hclose := cleanLabelTail_label (x := []) (t := s' ++ t) (by simp)
      (head?_ne_of_blank hs' ht (.inl rfl)) fun h ↦ by simp_all
    rw [List.nil_append, cleanLabelTail_append hblank] at hclose
    rw [hopen, cleanLabelTail_boxed hx.boxed, hclose] at hfirst
    simpa [Mark.text] using hfirst
  | edge x =>
    simpa [Mark.text] using cleanLabelTail_around (u := ['-', '-', ' ', '"']) (v := ['"', ' '])
      (t := t) (by decide) hm.boxed (by decide)

theorem exists_render_of_firstRun {r : Text} (h : firstRun ps tail = u ++ r) :
    ∃ r', render ps tail = u ++ r' := by
  cases ps with
  | nil => exact ⟨r, h⟩
  | cons p ps =>
    have hrun : p.run = u ++ r := h
    exact ⟨r ++ (p.mark.text ++ render ps tail), by simp [render, hrun]⟩

theorem cleanLabelTail_dangling {m : Mark} (hm : m.Fits k) (hdangling : m.IsDangling)
    (ht : t = [] ∨ ∃ r, t = ';' :: r) :
    cleanLabelTail (m.text ++ t) = (m.closed k).text ++ cleanLabelTail t := by
  cases m with
  | dangling x =>
    have hlabel := cleanLabelTail_label (x := x) (t := '[' :: '"' :: t)
      (head?_ne_of_filter (by decide) hm.1.head) (by simp) (by simp)
    have hclose : cleanLabelTail ('[' :: '"' :: t) = '"' :: ']' :: cleanLabelTail t := by
      refine cleanLabelTail_tail (opensTail_cons_iff.mpr ⟨rfl, ?_⟩)
      rcases ht with rfl | ⟨r, rfl⟩
      · exact .inl rfl
      · exact .inr rfl
    simp [Mark.text, Mark.closed, hlabel, cleanLabelTail_boxed hm.1.boxed, hclose]
  | label | quoted | standing | bar | quotedBar | broken | edge => exact hdangling.elim

theorem Mark.Precedes.render_dangling {m : Mark} (h : m.Precedes ps tail) (hm : m.IsDangling) :
    render ps tail = [] ∨ ∃ r, render ps tail = ';' :: r := by
  cases m with
  | dangling x =>
    rcases h with ⟨rfl, rfl⟩ | ⟨r, hr⟩
    · exact .inl rfl
    · exact .inr (exists_render_of_firstRun (u := [';']) hr)
  | label | quoted | standing | bar | quotedBar | broken | edge => exact hm.elim

theorem Mark.Precedes.render_broken {m : Mark} (h : m.Precedes ps tail) (hm : m.IsBroken) :
    ∃ r, render ps tail = Text.of "-->" ++ r := by
  cases m with
  | broken s x s' =>
    obtain ⟨⟨r, hr⟩, -⟩ := h
    exact exists_render_of_firstRun hr
  | label | quoted | standing | bar | quotedBar | dangling | edge => exact hm.elim

theorem Mark.closed_of_not_isDangling {m : Mark} (h : ¬ m.IsDangling) : m.closed k = m := by
  cases m with
  | dangling x => exact absurd trivial h
  | label | quoted | standing | bar | quotedBar | broken | edge => rfl

theorem cleanLabelTail_render (h : Orderly ps tail) :
    cleanLabelTail (render ps tail) = render (mapMarks Mark.closed ps) tail := by
  induction h with
  | @nil tail htail =>
    have htext := cleanLabelTail_append (t := []) htail.not_open
    rw [List.append_nil] at htext
    exact htext.trans (List.append_nil tail)
  | @cons p ps tail hrun hfits hprecedes _ ih =>
    have htext : cleanLabelTail (p.mark.text ++ render ps tail) =
        (p.mark.closed p.run).text ++ cleanLabelTail (render ps tail) := by
      by_cases hdangling : p.mark.IsDangling
      · exact cleanLabelTail_dangling hfits hdangling (hprecedes.render_dangling hdangling)
      · rw [Mark.closed_of_not_isDangling hdangling]
        refine cleanLabelTail_text hfits hdangling fun hbroken ↦ ?_
        obtain ⟨r, hr⟩ := hprecedes.render_broken hbroken
        rw [hr]
        rfl
    rw [render, cleanLabelTail_append hrun.not_open, htext, ih]
    rfl

namespace Mark

def settled (k : Text) (m : Mark) : Mark := (m.bracketed k).closed k

theorem isStep_settled : IsStep settled := isStep_closed.comp isStep_bracketed

theorem settled_bracketed (k : Text) (m : Mark) : (m.bracketed k).settled k = m.settled k := by
  cases m with
  | standing x =>
    by_cases h : gluedTo k x <;> simp [settled, bracketed, closed, h]
  | label | quoted | bar | quotedBar | dangling | broken | edge => rfl

theorem settled_closed (k : Text) (m : Mark) : (m.closed k).settled k = m.settled k := by
  cases m <;> rfl

end Mark

theorem Part.Brackets.improves (h : p.Brackets q) : p.Improves q := by
  rcases h with rfl | rfl
  · exact ⟨rfl, id, .inl rfl⟩
  · exact ⟨rfl, Mark.isStep_bracketed.fits, Mark.isStep_bracketed.settled p.run p.mark⟩

theorem not_isDangling_closed (ps : List Part) :
    ∀ p ∈ mapMarks Mark.closed ps, ¬ p.mark.IsDangling := by
  intro p hp
  obtain ⟨⟨k, m⟩, -, rfl⟩ := List.mem_map.mp hp
  cases m <;> exact id

theorem exists_settlePass_render (h : Orderly ps tail) :
    ∃ qs, List.Forall₂ Part.Brackets ps qs ∧ Orderly (mapMarks Mark.closed qs) tail ∧
      settlePass (render ps tail) = render (mapMarks Mark.closed qs) tail ∧
      ((∀ p ∈ ps, ¬ p.mark.IsDangling) → mapMarks Mark.closed qs = mapMarks Mark.settled ps) := by
  obtain ⟨qs, hqs, hrender, hall⟩ := bracketQuotedFrom_render h 0 none rfl
  have horderly := h.improves (hqs.imp fun _ _ ↦ Part.Brackets.improves)
  refine ⟨qs, hqs, horderly.mapMarks Mark.isStep_closed, ?_, fun hps ↦ ?_⟩
  · rw [settlePass, bracketQuotedLabels, hrender, cleanLabelTail_render horderly]
  · rw [hall rfl hps, mapMarks_mapMarks]
    rfl

theorem settled_of_brackets (h : List.Forall₂ Part.Brackets ps qs) :
    mapMarks Mark.settled (mapMarks Mark.closed qs) = mapMarks Mark.settled ps := by
  induction h with
  | nil => rfl
  | @cons p q ps qs hq _ ih =>
    have hmark : (q.mark.closed q.run).settled q.run = p.mark.settled p.run := by
      rw [Mark.settled_closed]
      rcases hq with rfl | rfl
      · rfl
      · exact Mark.settled_bracketed p.run p.mark
    have hrun : q.run = p.run := hq.improves.run
    simp only [mapMarks, List.map_cons] at ih ⊢
    rw [ih, hmark, hrun]

/-- Every glued text has its brackets and every tail is closed after two passes. -/
theorem settleLabels_render (h : Orderly ps tail) :
    settleLabels maxPasses (render ps tail) = render (mapMarks Mark.settled ps) tail := by
  -- behind a bracket turned the wrong way the depth is off, and a glued text waits for the second pass
  obtain ⟨qs, hqs, horderly, hfirst, -⟩ := exists_settlePass_render h
  obtain ⟨_, -, -, hsecond, hall⟩ := exists_settlePass_render horderly
  rw [hall (not_isDangling_closed qs), settled_of_brackets hqs] at hsecond
  rw [← hsecond, ← hfirst]
  exact settleLabels_eq 2 _

end DiagramRepair.Line
