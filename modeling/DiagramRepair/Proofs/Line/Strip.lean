import DiagramRepair.Proofs.Bracket
import DiagramRepair.Proofs.Line.Quote

namespace DiagramRepair.Line

open Pattern

variable {k t tail u x y : Text} {c : Char} {d : Nat} {p : Part} {ps : List Part}
  {prev : Option Char}

/-- A text whose brackets come in groups closes none of the brackets before it. -/
theorem closingAfter?_boxed (hx : Boxed x) (hd : 1 ≤ d) (t : Text) :
    Brackets.square.closingAfter? d (x ++ t) =
      (Brackets.square.closingAfter? d t).map (x.length + ·) := by
  induction hx with
  | nil => simp
  | @plain c x hc _ ih =>
    have hplain := Brackets.closingAfter?_run (u := [c]) (by simpa using hc.1.symm)
      (by simpa using hc.2.symm) d (x ++ t)
    rw [List.singleton_append] at hplain
    rw [List.cons_append, hplain, ih, Brackets.map_length_append, List.singleton_append]
  | @group y x hy _ ih =>
    have hclose : Brackets.square.closingAfter? (d + 1) (']' :: (x ++ t)) =
        (Brackets.square.closingAfter? d (x ++ t)).map ([']'].length + ·) := by
      simp [Brackets.closingAfter?, Brackets.square, Brackets.ofChars, Nat.not_le.mpr hd,
        Nat.add_comm]
    have hopen : ∀ r, Brackets.square.closingAfter? d ('[' :: r) =
        (Brackets.square.closingAfter? (d + 1) r).map (['['].length + ·) := fun r ↦ by
      simp [Brackets.closingAfter?, Brackets.square, Brackets.ofChars, Nat.add_comm]
    have hnot := not_mem_of_group hy
    rw [List.cons_append, List.append_assoc, List.cons_append, hopen,
      Brackets.closingAfter?_run (hnot '[' (by decide)) (hnot ']' (by decide)), hclose, ih]
    simp only [Brackets.map_length_append]
    simp

theorem closing?_boxed (hx : Boxed x) (t : Text) :
    Brackets.square.closing? ('[' :: (x ++ ']' :: t)) = some (x.length + 1) := by
  have hclose : Brackets.square.closingAfter? 1 (']' :: t) = some 0 := by
    simp [Brackets.closingAfter?, Brackets.square, Brackets.ofChars]
  rw [Brackets.closing?, if_pos (by decide), closingAfter?_boxed hx (Nat.le_refl 1), hclose]
  rfl

def stripFrom (prev : Option Char) (t : Text) : Text :=
  stripStretches prev (Stretch.ofTextFrom .square 0 t)

theorem stripFrom_cons (hc : c ≠ '[') (prev : Option Char) (t : Text) :
    stripFrom prev (c :: t) = c :: stripFrom (some c) t := by
  have hnone : Brackets.square.closing? (c :: t) = none := by
    simp [Brackets.closing?, Brackets.square, Brackets.ofChars, hc]
  rw [stripFrom, Stretch.ofTextFrom, hnone]
  rfl

theorem stripFrom_run (hk : '[' ∉ k) (prev : Option Char) (t : Text) :
    stripFrom prev (k ++ t) = k ++ stripFrom (lastOf prev k) t := by
  induction k generalizing prev with
  | nil => rfl
  | cons c k ih =>
    rw [List.mem_cons, not_or] at hk
    rw [List.cons_append, stripFrom_cons (Ne.symm hk.1), ih hk.2]
    rfl

theorem stripFrom_region (hx : Boxed x) (prev : Option Char) (t : Text) :
    stripFrom prev ('[' :: (x ++ ']' :: t)) =
      (if prev.any isIdentifierChar then stripRegion ('[' :: (x ++ [']']))
        else '[' :: (x ++ [']'])) ++ stripFrom (some ']') t := by
  have hskip := ofTextFrom_skip .square (x ++ [']']) t
    (by simp : (x ++ [']']).length = x.length + 1)
  have htake : ('[' :: (x ++ ']' :: t)).take (x.length + 1 + 1) = '[' :: (x ++ [']']) := by
    simp [List.take_append, List.take_of_length_le]
  rw [List.append_assoc, List.singleton_append] at hskip
  rw [stripFrom, Stretch.ofTextFrom, closing?_boxed hx]
  simp only [htake, hskip, stripStretches]
  rfl

theorem stripRegion_eq (x : Text) : stripRegion ('[' :: (x ++ [']'])) =
    if x.head?.any (among "([/\\\x7b") then '[' :: (x ++ [']'])
    else '[' :: (undecorated x ++ [']']) := by
  simp [stripRegion, undecorated]

/-- The groups of a text without decorations are regions that have nothing to lose. -/
theorem stripFrom_undecorated (hx : Boxed x) (hplain : undecorated x = x) (prev : Option Char)
    (t : Text) : stripFrom prev (x ++ t) = x ++ stripFrom (lastOf prev x) t := by
  have hkeep : ∀ c ∈ x, !among "()\x7b\x7d" c := by
    rw [undecorated] at hplain
    exact List.filter_eq_self.mp hplain
  clear hplain
  induction hx generalizing prev with
  | nil => rfl
  | @plain c x hc _ ih =>
    rw [List.cons_append, stripFrom_cons hc.1, ih _ fun d hd ↦ hkeep d (by simp [hd])]
    rfl
  | @group y x hy _ ih =>
    have hinside : undecorated y = y := List.filter_eq_self.mpr fun c hc ↦ hkeep c (by simp [hc])
    have hboxed : Boxed y := .of_group hy
    have hlast : lastOf prev ('[' :: (y ++ ']' :: x)) = lastOf (some ']') x := by
      simp [lastOf, lastOf_append]
    rw [List.cons_append, List.append_assoc, List.cons_append, stripFrom_region hboxed,
      stripRegion_eq, hinside, ite_self, ite_self, ih _ fun d hd ↦ hkeep d (by simp [hd]), hlast]
    simp

theorem stripFrom_standing (hx : Standing x) (prev : Option Char) (t : Text) :
    stripFrom prev (x ++ t) = x ++ stripFrom (lastOf prev x) t := by
  by_cases hopen : '[' ∈ x
  · exact stripFrom_undecorated hx.boxed (hx.undecorated_eq hopen) prev t
  · exact stripFrom_run hopen prev t

/-- A text between two others without brackets. -/
theorem stripFrom_around {v w : Text} (hv : '[' ∉ v) (hx : Standing x) (hw : '[' ∉ w)
    (hc : c ≠ '[') (prev : Option Char) (t : Text) :
    stripFrom prev (v ++ (x ++ (w ++ c :: t))) = v ++ (x ++ (w ++ c :: stripFrom (some c) t)) := by
  rw [stripFrom_run hv, stripFrom_standing hx, stripFrom_run hw, stripFrom_cons hc]

theorem stripFrom_text {m : Mark} (hm : m.Fits k) (hwhole : m.IsWhole)
    (hprev : prev.any isIdentifierChar = isNamed k) (t : Text) :
    ∃ c, isIdentifierChar c = false ∧
      stripFrom prev (m.text ++ t) = (m.stripped k).text ++ stripFrom (some c) t := by
  have hsign : ∀ c ∈ "]\"| ".toList, isIdentifierChar c = false := by decide
  cases m with
  | label x =>
    have hregion := stripFrom_region hm.boxed prev t
    rw [hprev, stripRegion_eq] at hregion
    refine ⟨']', hsign _ (by decide), ?_⟩
    simp only [Mark.text, List.cons_append, List.append_assoc, List.nil_append, hregion]
    rw [Mark.stripped]
    cases isNamed k <;> cases x.head?.any (among "([/\\\x7b") <;> simp
  | quoted x =>
    have hquote : Boxed ['"'] := .plain (by decide) .nil
    have hboxed : Boxed ('"' :: (x ++ ['"'])) := .plain (by decide) (hm.1.boxed.append hquote)
    have hregion := stripFrom_region hboxed prev t
    have hinside : undecorated ('"' :: (x ++ ['"'])) = '"' :: (undecorated x ++ ['"']) := by
      simp [undecorated, among]
    rw [hprev, stripRegion_eq, hinside] at hregion
    refine ⟨']', hsign _ (by decide), ?_⟩
    have hshape : among "([/\\\x7b" '"' = false := by decide
    simp only [List.head?_cons, Option.any_some, hshape] at hregion
    rw [Mark.stripped]
    cases hnamed : isNamed k <;> simpa [Mark.text, hnamed] using hregion
  | standing x =>
    have htext := stripFrom_around (v := ['"']) (w := []) (c := '"') (by decide) hm.1 (by decide)
      (by decide) prev t
    exact ⟨'"', hsign _ (by decide), by simpa [Mark.text, Mark.stripped] using htext⟩
  | bar x =>
    have htext := stripFrom_around (v := ['|']) (w := []) (c := '|') (by decide) hm.1 (by decide)
      (by decide) prev t
    exact ⟨'|', hsign _ (by decide), by simpa [Mark.text, Mark.stripped] using htext⟩
  | quotedBar x =>
    have htext := stripFrom_around (v := ['|', '"']) (w := ['"']) (c := '|') (by decide) hm
      (by decide) (by decide) prev t
    exact ⟨'|', hsign _ (by decide), by simpa [Mark.text, Mark.stripped] using htext⟩
  | edge x =>
    have htext := stripFrom_around (v := Text.of "-- \"") (w := ['"']) (c := ' ') (by decide) hm
      (by decide) (by decide) prev t
    exact ⟨' ', hsign _ (by decide), by simpa [Mark.text, Mark.stripped, Text.of] using htext⟩
  | dangling | broken => exact hwhole.elim

theorem any_lastOf (hprev : prev.any isIdentifierChar = false) :
    (lastOf prev k).any isIdentifierChar = isNamed k := by
  rcases List.eq_nil_or_concat k with rfl | ⟨k, c, rfl⟩
  · exact hprev
  · simp [lastOf_concat, isNamed]

theorem stripFrom_render (h : Orderly ps tail) (hps : ∀ p ∈ ps, p.mark.IsWhole)
    (prev : Option Char) (hprev : prev.any isIdentifierChar = false) :
    stripFrom prev (render ps tail) = render (mapMarks Mark.stripped ps) tail := by
  induction h generalizing prev with
  | @nil tail htail =>
    have htext := stripFrom_run htail.not_open prev []
    rw [List.append_nil] at htext
    exact htext.trans (List.append_nil tail)
  | @cons p ps tail hrun hfits hprecedes _ ih =>
    obtain ⟨hwhole, hps⟩ := List.forall_mem_cons.mp hps
    obtain ⟨c, hc, htext⟩ := stripFrom_text hfits hwhole (any_lastOf hprev) (render ps tail)
    rw [render, stripFrom_run hrun.not_open, htext, ih hps (some c) (by simpa using hc)]
    rfl

theorem stripLabelDecorations_render (h : Orderly ps tail) (hps : ∀ p ∈ ps, p.mark.IsWhole) :
    stripLabelDecorations (render ps tail) = render (mapMarks Mark.stripped ps) tail :=
  stripFrom_render h hps none rfl

end DiagramRepair.Line
