import DiagramRepair.Rule.EdgeLabel
import DiagramRepair.Proofs.Pattern.Search
import DiagramRepair.Proofs.Text.Classes
import DiagramRepair.Proofs.Text.Spans

namespace DiagramRepair

open Pattern Rule

abbrev Blank (u : Text) : Prop := ∀ c ∈ u, Text.isBlank c

def IsIdent (u : Text) : Prop := u ≠ [] ∧ ∀ c ∈ u, isIdentChar c

def IsLineArrow (u : Text) : Prop := u = Text.of "-->" ∨ u = Text.of "---"

def IsArrow (u : Text) : Prop := IsLineArrow u ∨ u = Text.of "==>" ∨ u = Text.of "-.->"

def IsSquareLabel (u : Text) : Prop := ∃ x, u = '[' :: (x ++ [']']) ∧ ']' ∉ x

def IsNodeReference (u : Text) : Prop :=
  ∃ id label, u = id ++ label ∧ IsIdent id ∧ (label = [] ∨ IsSquareLabel label)

def IsBarLabel (u : Text) : Prop :=
  ∃ s x, u = s ++ '|' :: (x ++ ['|']) ∧ Blank s ∧ '|' ∉ x

def IsTerminator (u : Text) : Prop :=
  ∃ s e s', u = s ++ (e ++ s') ∧ Blank s ∧ (e = [] ∨ e = [';']) ∧ Blank s'

def NoDoubleDash (u r : Text) : Prop := ∀ a c, u = a ++ '-' :: c → (c ++ r).head? ≠ some '-'

def IsOpenLabel (u r : Text) : Prop :=
  ∃ c x, u = c :: x ∧ Text.isBlank c = false ∧ c ≠ '"' ∧ c ≠ '-' ∧ '"' ∉ x ∧ NoDoubleDash x r

def IsEitherLabel (u r : Text) : Prop :=
  (∃ x, u = '"' :: (x ++ ['"']) ∧ '"' ∉ x) ∨ u ≠ [] ∧ '"' ∉ u ∧ NoDoubleDash u r

section

variable {c : Char} {r r' s s' u u' : Text}

theorem Blank.not_mem (hs : Blank s) (hc : Text.isBlank c = false) : c ∉ s :=
  not_mem_of_class hs hc

theorem IsIdent.not_mem (hu : IsIdent u) (hc : isIdentChar c = false) : c ∉ u :=
  not_mem_of_class hu.2 hc

theorem IsIdent.isBlank_head (hu : IsIdent u) (hc : c ∈ (u ++ r).head?) :
    Text.isBlank c = false := by
  obtain ⟨d, u, rfl⟩ := List.exists_cons_of_ne_nil hu.1
  obtain rfl := Option.some.inj hc
  exact not_isBlank_of_isIdentChar (hu.2 d (by simp))

theorem not_isIdentChar_head_blank_append (hs : Blank s) (hne : s ≠ []) :
    ∀ c ∈ (s ++ r).head?, isIdentChar c = false := by
  obtain ⟨d, s, rfl⟩ := List.exists_cons_of_ne_nil hne
  rintro c ⟨⟩
  exact not_isIdentChar_of_isBlank (hs d (by simp))

theorem IsIdent.append_unique (hu : IsIdent u) (hu' : IsIdent u')
    (hr : ∀ c ∈ r.head?, isIdentChar c = false) (hr' : ∀ c ∈ r'.head?, isIdentChar c = false)
    (h : u ++ r = u' ++ r') : u = u' ∧ r = r' :=
  Text.run_unique hu.2 hu'.2 hr hr' h

/-- A text has one first word. -/
theorem IsIdent.unique (hs : Blank s) (hs' : Blank s') (hu : IsIdent u) (hu' : IsIdent u')
    (hr : ∀ c ∈ r.head?, isIdentChar c = false) (hr' : ∀ c ∈ r'.head?, isIdentChar c = false)
    (h : s ++ (u ++ r) = s' ++ (u' ++ r')) : u = u' ∧ r = r' := by
  obtain ⟨-, hrest⟩ := Text.run_unique hs hs' (fun _ hc ↦ hu.isBlank_head hc)
    (fun _ hc ↦ hu'.isBlank_head hc) h
  exact hu.append_unique hu' hr hr' hrest

theorem IsIdent.getLast (hu : IsIdent u) (hc : c ∈ (s ++ u).getLast?) : isIdentChar c := by
  obtain ⟨u, d, rfl⟩ := (List.eq_nil_or_concat u).resolve_left hu.1
  have hd : d = c := by simpa using hc
  exact hu.2 c (by simp [hd])

theorem IsNodeReference.isIdentChar_head (hu : IsNodeReference u) (hc : c ∈ (u ++ r).head?) :
    isIdentChar c := by
  obtain ⟨id, label, rfl, hid, -⟩ := hu
  obtain ⟨d, id, rfl⟩ := List.exists_cons_of_ne_nil hid.1
  obtain rfl := Option.some.inj hc
  exact hid.2 d (by simp)

theorem IsNodeReference.getLast (hu : IsNodeReference u) (hc : c ∈ (s ++ u).getLast?) :
    isIdentChar c ∨ c = ']' := by
  obtain ⟨id, label, rfl, hid, rfl | ⟨x, rfl, -⟩⟩ := hu
  · exact .inl (hid.getLast (by simpa using hc))
  · have hlast : s ++ (id ++ '[' :: (x ++ [']'])) = s ++ (id ++ '[' :: x) ++ [']'] := by simp
    rw [hlast, List.getLast?_concat] at hc
    exact .inr (Option.some.inj hc).symm

theorem IsLineArrow.exists_eq (h : IsLineArrow u) :
    ∃ c, u = ['-', '-', c] ∧ (c = '-' ∨ c = '>') := by
  rcases h with rfl | rfl
  · exact ⟨'>', rfl, .inr rfl⟩
  · exact ⟨'-', rfl, .inl rfl⟩

theorem IsLineArrow.head_append (h : IsLineArrow u) (s r : Text) :
    (s ++ (u ++ r)).head? = (s ++ u).head? := by
  obtain ⟨c, rfl, -⟩ := h.exists_eq
  cases s <;> rfl

theorem IsTerminator.cons (hc : Text.isBlank c) (hu : IsTerminator u) : IsTerminator (c :: u) := by
  obtain ⟨t, e, t', rfl, ht, he, ht'⟩ := hu
  exact ⟨c :: t, e, t', rfl, List.forall_mem_cons.mpr ⟨hc, ht⟩, he, ht'⟩

theorem IsTerminator.append (hu : IsTerminator u) (hs : Blank s) : IsTerminator (u ++ s) := by
  obtain ⟨t, e, t', rfl, ht, he, ht'⟩ := hu
  refine ⟨t, e, t' ++ s, by simp, ht, he, fun c hc ↦ ?_⟩
  exact (List.mem_append.mp hc).elim (ht' c) (hs c)

theorem IsTerminator.of_mem (hu : IsTerminator u) (hc : c ∈ u) : Text.isBlank c ∨ c = ';' := by
  obtain ⟨s, e, s', rfl, hs, he, hs'⟩ := hu
  simp only [List.mem_append] at hc
  rcases hc with hc | hc | hc
  · exact .inl (hs c hc)
  · rcases he with rfl | rfl
    · simp at hc
    · exact .inr (List.mem_singleton.mp hc)
  · exact .inl (hs' c hc)

end

section

variable {r s s' t u w x : Text}

theorem NoDoubleDash.congr (h : NoDoubleDash u r) (hr : t.head? = r.head?) : NoDoubleDash u t := by
  intro a w hu
  have hhead := h a w hu
  rwa [List.head?_append, hr, ← List.head?_append]

theorem IsOpenLabel.congr (h : IsOpenLabel u r) (hr : t.head? = r.head?) :
    IsOpenLabel u t := by
  obtain ⟨c, x, rfl, hblank, hquote, hdash, hx, hdashes⟩ := h
  exact ⟨c, x, rfl, hblank, hquote, hdash, hx, hdashes.congr hr⟩

theorem IsOpenLabel.head_append (h : IsOpenLabel u r) (s x : Text) :
    (s ++ (u ++ x)).head? = (s ++ u).head? := by
  obtain ⟨c, y, rfl, -⟩ := h
  cases s <;> rfl

theorem IsOpenLabel.noDoubleDash (h : IsOpenLabel u (s' ++ r)) (hs : Blank s)
    (hs' : Blank s') : NoDoubleDash (s ++ (u ++ s')) r := by
  obtain ⟨c, x, rfl, -, -, hdash, -, hx⟩ := h
  have hblank : Text.isBlank '-' = false := by decide
  intro p q hpq
  have hleft : '-' ∉ s ++ [c] := by
    simp [hs.not_mem hblank, hdash.symm]
  obtain ⟨p, -, hpq⟩ := Text.exists_of_not_mem_left (y := x ++ s') hleft (by simpa using hpq)
  obtain ⟨q, rfl, rfl⟩ := Text.exists_of_not_mem_right (hs'.not_mem hblank) hpq
  rw [List.append_assoc]
  exact hx p q rfl

/-- Dashes of the text do not reach into what stands before two dashes. -/
theorem NoDoubleDash.eq_nil (h : NoDoubleDash (u ++ w) ('-' :: t))
    (heq : '-' :: '-' :: r = w ++ '-' :: '-' :: x) : w = [] := by
  cases w with
  | nil => rfl
  | cons c w =>
    obtain ⟨rfl, hrest⟩ : '-' = c ∧ '-' :: r = w ++ '-' :: '-' :: x := List.cons.inj heq
    have hhead := congrArg List.head? hrest
    rw [List.head?_cons, List.head?_append] at hhead
    refine absurd ?_ (h u w rfl)
    rw [List.head?_append]
    simpa using hhead.symm

theorem NoDoubleDash.unique (hu : NoDoubleDash u ('-' :: r)) (hw : NoDoubleDash w ('-' :: t))
    (h : u ++ '-' :: '-' :: r = w ++ '-' :: '-' :: t) : u = w := by
  rcases List.append_eq_append_iff.mp h with ⟨x, rfl, hx⟩ | ⟨x, rfl, hx⟩
  · rw [hw.eq_nil hx, List.append_nil]
  · rw [hu.eq_nil hx, List.append_nil]

end

namespace Pattern

variable {p : Pattern} {b u r : Text} {gs : Groups} {c : Char}

theorem among_eq_false {s : String} : among s c = false ↔ c ∉ s.toList := by
  simp [among]

theorem among_eq_true {s : String} : among s c = true ↔ c ∈ s.toList := by
  simp [among]

theorem takes_ident : ident.Takes b u r gs ↔ IsIdent u ∧ gs = [] := by
  rw [ident, takes_many1_one, IsIdent, and_assoc]

theorem takes_append_notAhead_one {cls : CharClass} : (p ++ notAhead (one cls)).Takes b u r gs ↔
    (∀ c ∈ r.head?, cls c = false) ∧ p.Takes b u r gs := by
  rw [takes_append_notAhead]
  refine and_congr_left fun _ ↦ ?_
  constructor
  · intro h c hc
    obtain ⟨t, rfl⟩ := List.head?_eq_some_iff.mp hc
    rw [Bool.eq_false_iff]
    exact fun hcls ↦ h ⟨[c], t, [], rfl, c, hcls, rfl, rfl⟩
  · rintro h ⟨_, w, g, rfl, c, hcls, rfl, -⟩
    simp [h c rfl] at hcls

theorem takes_append_notDash : (p ++ notAhead (sign "-")).Takes b u r gs ↔
    r.head? ≠ some '-' ∧ p.Takes b u r gs := by
  rw [takes_append_notAhead]
  refine and_congr_left fun _ ↦ not_congr ?_
  simp [takes_sign, List.head?_eq_some_iff]

theorem takes_textStart : textStart.Takes b u r gs ↔ b = [] ∧ u = [] ∧ gs = [] := by
  rw [textStart, takes_place]
  cases b <;> simp

theorem takes_star_noneOf {s : String} {greedy : Bool} :
    (star greedy (noneOf s)).Takes b u r gs ↔ (∀ c ∈ s.toList, c ∉ u) ∧ gs = [] := by
  rw [noneOf, takes_star_one]
  simp only [Bool.not_eq_eq_eq_not, Bool.not_true, among_eq_false]
  exact and_congr_left fun _ ↦ ⟨fun h c hc hu ↦ h c hu hc, fun h c hu hc ↦ h c hc hu⟩

theorem takes_append_star_noneOf {s : String} {greedy : Bool} :
    (p ++ star greedy (noneOf s)).Takes b u r gs ↔
      ∃ v w, u = v ++ w ∧ (∀ c ∈ s.toList, c ∉ w) ∧ p.Takes b v (w ++ r) gs :=
  takes_append_of (fun _ _ _ _ ↦ takes_star_noneOf)

theorem takes_lineArrow : (sign "-->" ||| sign "---").Takes b u r gs ↔ IsLineArrow u ∧ gs = [] := by
  rw [takes_or, takes_sign, takes_sign, IsLineArrow, or_and_right]
  rfl

theorem takes_arrowPattern : arrowPattern.Takes b u r gs ↔ IsArrow u ∧ gs = [] := by
  simp only [arrowPattern, takes_or, takes_sign, IsArrow, IsLineArrow, Text.of]
  grind

theorem takes_arrow : (sign "-->" ||| sign "---" ||| sign "==>" ||| sign "-.->").Takes b u r gs ↔
    IsArrow u ∧ gs = [] := takes_arrowPattern

theorem takes_squareLabel : squareLabel.Takes b u r gs ↔ IsSquareLabel u ∧ gs = [] := by
  simp only [squareLabel, many, takes_append_sign, takes_append_star_noneOf, takes_sign]
  constructor
  · rintro ⟨_, rfl, _, w, rfl, hw, rfl, rfl⟩
    exact ⟨⟨w, rfl, by simpa using hw⟩, rfl⟩
  · rintro ⟨⟨w, rfl, hw⟩, rfl⟩
    exact ⟨'[' :: w, rfl, ['['], w, rfl, by simpa using hw, rfl, rfl⟩

theorem takes_nodeReference : nodeReference.Takes b u r gs ↔ IsNodeReference u ∧ gs = [] := by
  simp only [nodeReference, takes_append, takes_ident, takes_opt, takes_squareLabel]
  constructor
  · rintro ⟨v, w, _, _, rfl, rfl, ⟨hv, rfl⟩, ⟨hw, rfl⟩ | ⟨rfl, rfl⟩⟩
    · exact ⟨⟨v, w, rfl, hv, .inr hw⟩, rfl⟩
    · exact ⟨⟨v, [], rfl, hv, .inl rfl⟩, rfl⟩
  · rintro ⟨⟨v, w, rfl, hv, rfl | hw⟩, rfl⟩
    · exact ⟨v, [], [], [], rfl, rfl, ⟨hv, rfl⟩, .inr ⟨rfl, rfl⟩⟩
    · exact ⟨v, w, [], [], rfl, rfl, ⟨hv, rfl⟩, .inl ⟨hw, rfl⟩⟩

theorem takes_barLabel : barLabel.Takes b u r gs ↔ IsBarLabel u ∧ gs = [] := by
  simp only [barLabel, many, takes_append_sign, takes_append_star_noneOf, takes_blanks]
  constructor
  · rintro ⟨_, rfl, _, x, rfl, hx, s, rfl, hs, rfl⟩
    exact ⟨⟨s, x, by simp, hs, by simpa using hx⟩, rfl⟩
  · rintro ⟨⟨s, x, rfl, hs, hx⟩, rfl⟩
    exact ⟨s ++ '|' :: x, by simp, s ++ ['|'], x, by simp, by simpa using hx, s, rfl, hs, rfl⟩

theorem takes_terminator : (blanks ++ opt (sign ";") ++ blanks).Takes b u r gs ↔
    IsTerminator u ∧ gs = [] := by
  simp only [takes_append_blanks, takes_append_opt_sign, takes_blanks]
  constructor
  · rintro ⟨_, s', rfl, hs', s, e, rfl, he, hs, rfl⟩
    exact ⟨⟨s, e, s', by simp, hs, he.symm, hs'⟩, rfl⟩
  · rintro ⟨⟨s, e, s', rfl, hs, he, hs'⟩, rfl⟩
    exact ⟨s ++ e, s', by simp, hs', s, e, rfl, he.symm, hs, rfl⟩

theorem takes_separator : separator.Takes b u r gs ↔ u = Text.of "--" ∧ gs = [] ∧
    b.head? ≠ some '-' ∧ r.head? ≠ some '-' ∧ r.head? ≠ some '>' := by
  simp only [separator, takes_append_notAhead, takes_append_sign, notPrecededBy, takes_place,
    oneOf, takes_one]
  constructor
  · rintro ⟨hr, _, rfl, rfl, rfl, hb⟩
    refine ⟨rfl, rfl, ?_, fun h ↦ hr ?_, fun h ↦ hr ?_⟩
    · cases b <;> simp_all
    · obtain ⟨t, rfl⟩ := List.head?_eq_some_iff.mp h
      exact ⟨['-'], t, [], rfl, '-', by decide, rfl, rfl⟩
    · obtain ⟨t, rfl⟩ := List.head?_eq_some_iff.mp h
      exact ⟨['>'], t, [], rfl, '>', by decide, rfl, rfl⟩
  · rintro ⟨rfl, rfl, hb, hr, hr'⟩
    refine ⟨?_, [], rfl, rfl, rfl, ?_⟩
    · rintro ⟨v, w, g, rfl, c, hc, rfl, -⟩
      rw [among_eq_true] at hc
      simp_all
    · cases b <;> simp_all

theorem takes_append_separator : (p ++ separator).Takes b u r gs ↔ ∃ v, u = v ++ Text.of "--" ∧
    (v.reverse ++ b).head? ≠ some '-' ∧ r.head? ≠ some '-' ∧ r.head? ≠ some '>' ∧
      p.Takes b v (Text.of "--" ++ r) gs := by
  rw [takes_append_of (Q := fun b u r ↦ u = Text.of "--" ∧ b.head? ≠ some '-' ∧
    r.head? ≠ some '-' ∧ r.head? ≠ some '>') (fun _ _ _ _ ↦ ?_)]
  · constructor
    · rintro ⟨v, _, rfl, ⟨rfl, hb, hr, hr'⟩, hv⟩
      exact ⟨v, rfl, hb, hr, hr', hv⟩
    · rintro ⟨v, rfl, hb, hr, hr', hv⟩
      exact ⟨v, _, rfl, ⟨rfl, hb, hr, hr'⟩, hv⟩
  · rw [takes_separator]
    constructor
    · rintro ⟨hu, hgs, h⟩
      exact ⟨⟨hu, h⟩, hgs⟩
    · rintro ⟨⟨hu, h⟩, hgs⟩
      exact ⟨hu, hgs, h⟩

theorem takes_singleDash : singleDash.Takes b u r gs ↔
    u = ['-'] ∧ gs = [] ∧ r.head? ≠ some '-' := by
  simp only [singleDash, takes_append_notAhead, takes_sign]
  constructor
  · rintro ⟨hr, rfl, rfl⟩
    refine ⟨rfl, rfl, fun h ↦ hr ?_⟩
    obtain ⟨t, rfl⟩ := List.head?_eq_some_iff.mp h
    exact ⟨['-'], t, [], rfl, rfl, rfl⟩
  · rintro ⟨rfl, rfl, hr⟩
    refine ⟨?_, rfl, rfl⟩
    rintro ⟨v, w, g, rfl, rfl, rfl⟩
    simp at hr

theorem noDoubleDash_cons {c : Char} : NoDoubleDash (c :: u) r ↔
    (c = '-' → (u ++ r).head? ≠ some '-') ∧ NoDoubleDash u r := by
  constructor
  · intro h
    refine ⟨?_, fun a w hu ↦ h (c :: a) w (by rw [hu, List.cons_append])⟩
    rintro rfl
    exact h [] u rfl
  · rintro ⟨hc, h⟩ (_ | ⟨d, a⟩) w hu
    · obtain ⟨rfl, rfl⟩ := List.cons.inj hu
      exact hc rfl
    · exact h a w (List.cons.inj hu).2

theorem takes_star_noneOf_singleDash {s : String} (hs : '-' ∈ s.toList) {greedy : Bool} :
    (star greedy (noneOf s ||| singleDash)).Takes b u r gs ↔
      (∀ c ∈ s.toList, c ≠ '-' → c ∉ u) ∧ NoDoubleDash u r ∧ gs = [] := by
  rw [takes_star]
  constructor
  · intro h
    induction h with
    | nil => simp [NoDoubleDash]
    | @cons b u v r g g' hu hv ih =>
      obtain ⟨hmem, hdash, rfl⟩ := ih
      rcases hu with ⟨c, hc, rfl, rfl⟩ | hu
      · simp only [Bool.not_eq_eq_eq_not, Bool.not_true, among_eq_false] at hc
        have hne : c ≠ '-' := fun h ↦ hc (h ▸ hs)
        refine ⟨fun d hd hd' ↦ ?_, noDoubleDash_cons.mpr ⟨fun h ↦ absurd h hne, hdash⟩, rfl⟩
        rw [List.singleton_append, List.mem_cons, not_or]
        exact ⟨fun h ↦ hc (h ▸ hd), hmem d hd hd'⟩
      · obtain ⟨rfl, rfl, hr⟩ := takes_singleDash.mp hu
        refine ⟨fun d hd hd' ↦ ?_, noDoubleDash_cons.mpr ⟨fun _ ↦ hr, hdash⟩, rfl⟩
        rw [List.singleton_append, List.mem_cons, not_or]
        exact ⟨hd', hmem d hd hd'⟩
  · rintro ⟨hmem, hdash, rfl⟩
    induction u generalizing b with
    | nil => exact .nil _ _
    | cons c u ih =>
      obtain ⟨hhead, hrest⟩ := noDoubleDash_cons.mp hdash
      have hone : (noneOf s ||| singleDash).Takes b [c] (u ++ r) [] := by
        by_cases hc : c = '-'
        · subst hc
          exact .inr (takes_singleDash.mpr ⟨rfl, rfl, hhead rfl⟩)
        · refine .inl ⟨c, ?_, rfl, rfl⟩
          simp only [Bool.not_eq_eq_eq_not, Bool.not_true, among_eq_false]
          exact fun h ↦ hmem c h hc (by simp)
      exact .cons hone (ih (fun d hd hne hu ↦ hmem d hd hne (by simp [hu])) hrest)

theorem takes_append_star_self {greedy : Bool} (hp : p.takesSome) :
    (p ++ star greedy p).Takes b u r gs ↔ u ≠ [] ∧ (star greedy p).Takes b u r gs := by
  rw [takes_append, takes_star]
  constructor
  · rintro ⟨v, w, g, g', rfl, rfl, hv, hw⟩
    exact ⟨by simp [hv.ne_nil hp], .cons hv hw⟩
  · rintro ⟨hne, h⟩
    cases h with
    | nil => simp at hne
    | @cons _ v w _ g g' hv hw => exact ⟨v, w, g, g', rfl, rfl, hv, hw⟩

theorem takes_many1_noneOf_singleDash {s : String} (hs : '-' ∈ s.toList) {greedy : Bool} :
    ((noneOf s ||| singleDash) ++ star greedy (noneOf s ||| singleDash)).Takes b u r gs ↔
      u ≠ [] ∧ (∀ c ∈ s.toList, c ≠ '-' → c ∉ u) ∧ NoDoubleDash u r ∧ gs = [] := by
  rw [takes_append_star_self (by rfl), takes_star_noneOf_singleDash hs]

theorem takes_openLabel : openLabel.Takes b u r gs ↔ IsOpenLabel u r ∧ gs = [] := by
  simp only [openLabel, manyLazy, labelChar, takes_append, takes_one,
    takes_star_noneOf_singleDash (s := "\"-") (by decide), existsAndEq, true_and, and_true, among,
    String.reduceToList, List.contains_eq_mem, List.mem_cons, List.not_mem_nil, or_false,
    Bool.decide_or, Bool.not_or, Bool.and_eq_true, Bool.not_eq_eq_eq_not, Bool.not_true,
    decide_eq_false_iff_not, forall_eq_or_imp, forall_eq, ne_eq, Char.reduceEq, not_true_eq_false,
    not_false_eq_true, forall_const, false_implies, and_assoc, List.cons_append, List.nil_append,
    IsOpenLabel]
  constructor
  · rintro ⟨x, c, hu, hblank, hquote, hdash, hgs, hx⟩
    exact ⟨⟨c, x, hu, hblank, hquote, hdash, hx⟩, hgs⟩
  · rintro ⟨⟨c, x, hu, hblank, hquote, hdash, hx⟩, hgs⟩
    exact ⟨x, c, hu, hblank, hquote, hdash, hgs, hx⟩

theorem takes_eitherLabel : eitherLabel.Takes b u r gs ↔ IsEitherLabel u r ∧ gs = [] := by
  simp only [eitherLabel, many1Lazy, manyLazy, many, labelChar, takes_or, takes_append_sign,
    takes_append_star_noneOf, takes_sign, existsAndEq, true_and, and_true,
    takes_many1_noneOf_singleDash (s := "\"-") (by decide), String.reduceToList, List.mem_cons,
    List.not_mem_nil, or_false, forall_eq_or_imp, forall_eq, ne_eq, Char.reduceEq,
    not_true_eq_false, not_false_eq_true, forall_const, false_implies, List.cons_append,
    List.nil_append, IsEitherLabel]
  constructor
  · rintro (⟨x, hu, hx, hgs⟩ | ⟨hne, hquote, hdash, hgs⟩)
    · exact ⟨.inl ⟨x, hu, hx⟩, hgs⟩
    · exact ⟨.inr ⟨hne, hquote, hdash⟩, hgs⟩
  · rintro ⟨⟨x, hu, hx⟩ | ⟨hne, hquote, hdash⟩, hgs⟩
    · exact .inl ⟨x, hu, hx, hgs⟩
    · exact .inr ⟨hne, hquote, hdash, hgs⟩

end Pattern

end DiagramRepair
