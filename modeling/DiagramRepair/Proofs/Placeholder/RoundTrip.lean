import DiagramRepair.Proofs.Bracket.Balanced
import DiagramRepair.Proofs.Placeholder.Escapes

namespace DiagramRepair

open Pattern Registry Brackets

variable {d : Nat} {b s t u v : Text} {gs : Groups} {ps : List Piece} {ss : List Stretch}
  {r : Registry} {p : Pattern} {c : Char}

theorem Part.flatMap_text_ofLine (hides : Text → Bool) (ls : List Text) :
    ((ls.map (Part.ofLine hides)).intersperse (.shown ['\n'])).flatMap Part.text =
      Text.unlines ls := by
  have hline : ∀ l, (Part.ofLine hides l).text = l := by
    intro l
    rw [Part.ofLine]
    split <;> rfl
  induction ls with
  | nil => rfl
  | cons l ls ih =>
    by_cases hls : ls = []
    · simp [hls, hline, Text.unlines_singleton]
    · obtain ⟨l', ls, rfl⟩ := List.exists_cons_of_ne_nil hls
      rw [Text.unlines_cons hls, ← ih, List.map_cons, List.map_cons, List.intersperse_cons_cons,
        List.flatMap_cons, List.flatMap_cons, hline]
      rfl

theorem restore_hideLines [Nonces] (hides : Text → Bool) (tag : String) (ht : tokenOpen ∉ t) :
    (hideLines hides tag t).2.restore (hideLines hides tag t).1 = t := by
  have htext : (Part.ofLines hides t).flatMap Part.text = t :=
    (Part.flatMap_text_ofLine hides (Text.lines t)).trans (Text.unlines_lines t)
  have hback := Part.restore_conceal (r := .fresh tag t) (htext.symm ▸ ht)
  rwa [htext] at hback

theorem restore_hideMatches [Nonces] (hp : p.steady) (hs : p.takesSome) (tag : String)
    (ht : tokenOpen ∉ t) : (hideMatches p tag t).2.restore (hideMatches p tag t).1 = t := by
  have htext : (Part.ofPattern p t).flatMap Part.text = t := (scans_pieces hp hs t).flatMap_text
  have hback := Part.restore_conceal (r := .fresh tag t) (htext.symm ▸ ht)
  rwa [htext] at hback

/-- A stretch that is shown, up to where the first token begins, was there before. -/
theorem Pattern.Scans.exists_shown (h : Scans p b t ps) (hu : tokenOpen ∉ u)
    (hshown : (Part.conceal (ps.map Piece.toPart) r).1 = u ++ v) : ∃ v', t = u ++ v' := by
  induction h generalizing u with
  | nil =>
    obtain ⟨rfl, -⟩ := List.append_eq_nil_iff.mp hshown.symm
    exact ⟨[], rfl⟩
  | @plain b t c ps _ _ ih =>
    cases u with
    | nil => exact ⟨c :: t, rfl⟩
    | cons d u =>
      obtain ⟨rfl, hrest⟩ := List.cons.inj hshown
      obtain ⟨v', rfl⟩ := ih (fun hmem ↦ hu (by simp [hmem])) hrest
      exact ⟨v', rfl⟩
  | @found m ps _ _ _ =>
    cases u with
    | nil => exact ⟨_, rfl⟩
    | cons d u =>
      obtain ⟨rfl, -⟩ := List.cons.inj hshown
      simp at hu

/-- No stretch that the pattern takes wherever it stands is shown as a whole. -/
theorem Pattern.Scans.conceal_ne (h : Scans p b t ps) (hr : r.Proper) (hopen : tokenOpen ∉ u)
    (hc : isTokenChar c = false) (htakes : ∀ b v, p.Takes b (c :: u) v gs) (s v : Text) :
    (Part.conceal (ps.map Piece.toPart) r).1 ≠ s ++ c :: (u ++ v) := by
  intro hshown
  induction h generalizing r s with
  | nil => simp [Part.conceal] at hshown
  | @plain b t d ps hfree h ih =>
    cases s with
    | nil =>
      obtain ⟨rfl, hrest⟩ := List.cons.inj hshown
      obtain ⟨v', rfl⟩ := h.exists_shown hopen hrest
      exact hfree (d :: u) v' gs rfl (htakes _ _)
    | cons e s => exact ih hr s (List.cons.inj hshown).2
  | @found m ps _ _ ih =>
    have htoken : c ∉ r.token r.size := (tokenLike_token hr).not_mem ⟨_, rfl⟩ hc
    obtain ⟨s', rfl, hrest⟩ := Text.exists_of_not_mem_left htoken hshown
    exact ih (r := (r.add m.whole).2) hr s' hrest

theorem Pattern.occursIn_eq_false (hp : p.steady)
    (h : ∀ s u v gs, t = s ++ (u ++ v) → ¬ p.Takes s.reverse u v gs) : p.occursIn t = false := by
  rw [occursIn, Option.isSome_eq_false_iff, Option.isNone_iff_eq_none,
    Option.eq_none_iff_forall_ne_some]
  intro m hm
  obtain ⟨⟨gs, htakes, -⟩, ht⟩ := of_search? hp hm
  exact h m.before.reverse m.whole m.after gs ht (by simpa using htakes)

theorem occursIn_hideEscapes [Nonces] (t : Text) : escapePattern.occursIn (hideEscapes t).1 = false := by
  have hproper : (fresh "ESC" t).Proper := proper_fresh (by decide) t
  have hscans := scans_escapes t
  refine occursIn_eq_false (by decide) fun s u v gs hshown htakes ↦ ?_
  rcases (takes_escapePattern.mp htakes).1 with ⟨c, rfl, hc⟩ | ⟨x, rfl, hx⟩
  · exact hc (backslashesLast_conceal hscans hproper s (c :: v) hshown c rfl)
  · have hopen : tokenOpen ∉ x ++ [';'] := by
      refine List.not_mem_append ?_ (by decide)
      rcases hx.2 with hx | hx <;> exact not_mem_of_class hx (by decide +kernel)
    have hcode : ∀ b v, escapePattern.Takes b ('#' :: (x ++ [';'])) v [] :=
      fun b v ↦ takes_escapePattern.mpr ⟨.inr ⟨x, rfl, hx⟩, rfl⟩
    exact hscans.conceal_ne hproper hopen (by decide) hcode s v hshown

theorem Brackets.closingAfter?_region (hu : Region '[' ']' u) (hd : 1 ≤ d) (t : Text) :
    square.closingAfter? d (u ++ t) = (square.closingAfter? d t).map (u.length + ·) := by
  have hopen : ∀ v w, u = v ++ w → v.count ']' < d + v.count '[' := by
    intro v w huvw
    by_cases hv : v = []
    · simpa [hv] using Nat.lt_of_succ_le hd
    · by_cases hw : w = []
      · obtain rfl : u = v := by simpa [hw] using huvw
        rw [← hu.even]
        omega
      · have hlt := hu.count_lt (by decide) huvw hv hw
        omega
  rw [square, closingAfter?_append (by decide) hopen, hu.even, Nat.add_sub_cancel]

/-- A bracket that never closed does not close behind the tokens either. -/
theorem closingAfter?_conceal (h : Cuts square t ss) (hr : r.Proper) (hd : 1 ≤ d)
    (hnone : square.closingAfter? d t = none) :
    square.closingAfter? d (Part.conceal (ss.map Stretch.toPart) r).1 = none := by
  induction h generalizing d r with
  | nil => rfl
  | @outside c t ss _ _ ih =>
    change square.closingAfter? d (c :: (Part.conceal (ss.map Stretch.toPart) r).1) = none
    rw [closingAfter?] at hnone ⊢
    split_ifs at hnone ⊢ with hopen hclose hdepth
    · rw [Option.map_eq_none_iff] at hnone ⊢
      exact ih hr (by omega) hnone
    · rw [Option.map_eq_none_iff] at hnone ⊢
      exact ih hr (by omega) hnone
    · rw [Option.map_eq_none_iff] at hnone ⊢
      exact ih hr hd hnone
  | @region o c x v ss hclosing _ _ _ ih =>
    have hsplit : o :: (x ++ c :: v) = o :: (x ++ [c]) ++ v := by simp
    rw [hsplit] at hclosing hnone
    have hregion : Region '[' ']' (o :: (x ++ [c])) :=
      region_of_closing? (by decide) hclosing (by simp)
    have htoken : ∀ c, isTokenChar c = false → c ∉ r.token r.size :=
      fun c hc ↦ (tokenLike_token hr).not_mem ⟨_, rfl⟩ hc
    change square.closingAfter? d (r.token r.size ++
      (Part.conceal (ss.map Stretch.toPart) (r.add (o :: (x ++ [c]))).2).1) = none
    rw [closingAfter?_region hregion hd, Option.map_eq_none_iff] at hnone
    rw [closingAfter?_run (htoken '[' (by decide)) (htoken ']' (by decide)),
      Option.map_eq_none_iff]
    exact ih hr hd hnone

/-- No region is shown as a whole. -/
theorem Cuts.conceal_ne (h : Cuts square t ss) (hr : r.Proper) (hu : Region '[' ']' u)
    (s v : Text) : (Part.conceal (ss.map Stretch.toPart) r).1 ≠ s ++ (u ++ v) := by
  intro hshown
  obtain ⟨x, rfl⟩ := hu.exists_eq (by decide)
  induction h generalizing r s with
  | nil => simp [Part.conceal] at hshown
  | @outside c t ss hnone hcuts ih =>
    cases s with
    | nil =>
      obtain ⟨rfl, hrest⟩ := List.cons.inj hshown
      have hopens : square.opens '[' := square_opens.mpr rfl
      have hclosing : square.closing? ('[' :: (x ++ [']'] ++ v)) = some _ :=
        hu.closing? (by decide) v
      have hlater : (Part.conceal (ss.map Stretch.toPart) r).1 = x ++ [']'] ++ v := hrest
      rw [closing?, if_pos hopens, Option.map_eq_none_iff] at hnone
      rw [closing?, if_pos hopens, ← hlater, closingAfter?_conceal hcuts hr Nat.one_pos hnone]
        at hclosing
      cases hclosing
    | cons e s => exact ih hr s (List.cons.inj hshown).2
  | @region o c x v ss _ _ _ _ ih =>
    have htoken : '[' ∉ r.token r.size := (tokenLike_token hr).not_mem ⟨_, rfl⟩ (by decide)
    obtain ⟨s', rfl, hrest⟩ := Text.exists_of_not_mem_left htoken hshown
    exact ih (r := (r.add _).2) hr s' hrest

theorem not_balanced_hideBracketRegions [Nonces] (t : Text) (i j : Nat) :
    ¬ Balanced '[' ']' (hideBracketRegions t).1 i j := by
  intro h
  obtain ⟨s, u, v, hshown, -, -, hu⟩ := (balanced_iff (by decide)).mp h
  exact (cuts_ofText square t).conceal_ne (proper_fresh (by decide) t) hu s v hshown

/-- What is hidden from a text in which no token can begin comes back, and of any text no escape and
no balanced region is left to hide behind the tokens. -/
theorem hiding_reversible [Nonces] (ht : tokenOpen ∉ t) :
    (∀ hides tag, (hideLines hides tag t).2.restore (hideLines hides tag t).1 = t) ∧
    (∀ tag, (hideMatches escapePattern tag t).2.restore (hideMatches escapePattern tag t).1 = t) ∧
    (hideBracketRegions t).2.restore (hideBracketRegions t).1 = t ∧
    escapePattern.occursIn (hideEscapes t).1 = false ∧
    ∀ i j, ¬ Balanced '[' ']' (hideBracketRegions t).1 i j :=
  ⟨fun hides tag ↦ restore_hideLines hides tag ht,
    fun tag ↦ restore_hideMatches (by decide) (by decide) tag ht,
    restore_hideBracketRegions ht, occursIn_hideEscapes t, not_balanced_hideBracketRegions t⟩

section

attribute [local instance] Nonces.zeros

/-- An escaped bracket and an entity code, a bracket that never closes and one that does, and a
table row. -/
theorem hiding_reversible_nested :
    let t := Text.of "a\\] [b[c[d]] #35;\\\n|-|\n# x;"
    tokenOpen ∉ t ∧ (hideEscapes t).2.pieces = #[Text.of "\\]", Text.of "#35;"] ∧
    (hideBracketRegions t).2.pieces = #[Text.of "[c[d]]"] ∧
    (hideLines isTableSeparator "ROW" t).2.restore (hideLines isTableSeparator "ROW" t).1 = t ∧
    (hideEscapes t).2.restore (hideEscapes t).1 = t ∧
    (hideBracketRegions t).2.restore (hideBracketRegions t).1 = t ∧
    escapePattern.occursIn (hideEscapes t).1 = false ∧
    ∀ i j, ¬ Balanced '[' ']' (hideBracketRegions t).1 i j := by
  intro t
  have ht : tokenOpen ∉ t := by decide
  obtain ⟨hlines, hmatches, hregions, hescape, hbalanced⟩ := hiding_reversible ht
  exact ⟨ht, by decide +kernel, by decide +kernel, hlines isTableSeparator "ROW", hmatches "ESC",
    hregions, hescape, hbalanced⟩

end

end DiagramRepair
