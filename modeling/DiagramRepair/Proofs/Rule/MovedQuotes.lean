import DiagramRepair.Proofs.Bracket.Balanced
import DiagramRepair.Proofs.Rule.Tokens
import DiagramRepair.Proofs.Text.Wording

namespace DiagramRepair.Rule

open Pattern Registry Brackets

/-- A quote changes places with the arrow before it, or with the dashes after it. -/
inductive MovesQuote : Text → Text → Prop
  | before : MovesQuote (Text.of " -->\"") (Text.of "\" -->")
  | after : MovesQuote (Text.of "\"-- ") (Text.of "--\" ")

inductive MovesQuotes : List Stretch → List Stretch → Prop
  | nil : MovesQuotes [] []
  | keep {s : Stretch} {ss ss' : List Stretch} :
      MovesQuotes ss ss' → MovesQuotes (s :: ss) (s :: ss')
  | move {u v : Text} {ss ss' : List Stretch} : MovesQuote u v → MovesQuotes ss ss' →
      MovesQuotes (u.map .outside ++ ss) (v.map .outside ++ ss')

def isQuoteOrSpace (c : Char) : Bool := c == ' ' || c == '"'

variable {b r t u v : Text} {ss ss' : List Stretch}

theorem MovesQuote.perm (h : MovesQuote u v) : v.Perm u := by
  cases h <;> decide

theorem MovesQuote.wording_eq (h : MovesQuote u v) :
    wording isQuoteOrSpace v = wording isQuoteOrSpace u := by
  cases h <;> decide

theorem MovesQuote.alike (h : MovesQuote u v) : List.Forall₂ square.Alike u v := by
  cases h <;> simp [Text.of, Alike, square, ofChars]

theorem MovesQuote.not_mem (h : MovesQuote u v) : tokenOpen ∉ u := by
  cases h <;> decide

theorem MovesQuote.exists_cons (h : MovesQuote u v) :
    ∃ c u', u = c :: u' ∧ isTokenChar c = false := by
  cases h
  · exact ⟨_, _, rfl, by decide⟩
  · exact ⟨_, _, rfl, by decide⟩

theorem flatMap_text_outside (u : Text) (ss : List Stretch) :
    (u.map Stretch.outside ++ ss).flatMap Stretch.text = u ++ ss.flatMap Stretch.text := by
  simp [List.flatMap_map, Stretch.text]

theorem spansFrom_outside (u : Text) (ss : List Stretch) (i : Nat) :
    Stretch.spansFrom i (u.map Stretch.outside ++ ss) = Stretch.spansFrom (i + u.length) ss := by
  induction u generalizing i with
  | nil => rfl
  | cons c u ih =>
    have hi : i + 1 + u.length = i + (c :: u).length := by
      simp
      omega
    exact (ih (i + 1)).trans (by rw [hi])

theorem MovesQuotes.refl (ss : List Stretch) : MovesQuotes ss ss := by
  induction ss with
  | nil => exact .nil
  | cons s ss ih => exact .keep ih

theorem MovesQuotes.region_mem_iff (h : MovesQuotes ss ss') {w : Text} :
    .region w ∈ ss' ↔ .region w ∈ ss := by
  induction h with
  | nil => rfl
  | keep _ ih => rw [List.mem_cons, List.mem_cons, ih]
  | move _ _ ih => simp [ih]

theorem MovesQuotes.perm (h : MovesQuotes ss ss') :
    (ss'.flatMap Stretch.text).Perm (ss.flatMap Stretch.text) := by
  induction h with
  | nil => exact .refl _
  | keep _ ih => exact ih.append_left _
  | move huv _ ih =>
    rw [flatMap_text_outside, flatMap_text_outside]
    exact huv.perm.append ih

theorem MovesQuotes.wording_eq (h : MovesQuotes ss ss') :
    wording isQuoteOrSpace (ss'.flatMap Stretch.text) =
      wording isQuoteOrSpace (ss.flatMap Stretch.text) := by
  induction h with
  | nil => rfl
  | keep _ ih => rw [List.flatMap_cons, List.flatMap_cons, wording_append, wording_append, ih]
  | move huv _ ih =>
    rw [flatMap_text_outside, flatMap_text_outside, wording_append, wording_append, ih,
      huv.wording_eq]

theorem MovesQuotes.alike (h : MovesQuotes ss ss') :
    List.Forall₂ square.Alike (ss.flatMap Stretch.text) (ss'.flatMap Stretch.text) := by
  induction h with
  | nil => exact .nil
  | keep _ ih => exact List.rel_append (forall₂_alike_refl _ _) ih
  | move huv _ ih =>
    rw [flatMap_text_outside, flatMap_text_outside]
    exact List.rel_append huv.alike ih

theorem MovesQuotes.spansFrom_eq (h : MovesQuotes ss ss') (i : Nat) :
    Stretch.spansFrom i ss' = Stretch.spansFrom i ss := by
  induction h generalizing i with
  | nil => rfl
  | @keep s _ _ _ ih => cases s <;> simp [Stretch.spansFrom, ih]
  | move huv _ ih => rw [spansFrom_outside, spansFrom_outside, huv.perm.length_eq, ih]

/-- What stands between the first and the last index of a region stays. -/
theorem MovesQuotes.slice_eq (h : MovesQuotes ss ss') (hss : .region [] ∉ ss) (s s' : Text)
    (hs : s'.length = s.length) {p : Nat × Nat} (hp : p ∈ Stretch.spansFrom s.length ss) :
    slice (s' ++ ss'.flatMap Stretch.text) p.1 p.2 =
      slice (s ++ ss.flatMap Stretch.text) p.1 p.2 := by
  induction h generalizing s s' with
  | nil => simp [Stretch.spansFrom] at hp
  | @keep stretch ss ss' _ ih =>
    rw [List.mem_cons, not_or] at hss
    have hrest : p ∈ Stretch.spansFrom (s ++ stretch.text).length ss →
        slice (s' ++ (stretch :: ss').flatMap Stretch.text) p.1 p.2 =
          slice (s ++ (stretch :: ss).flatMap Stretch.text) p.1 p.2 := fun hp ↦ by
      simpa using ih hss.2 _ (s' ++ stretch.text) (by simp [hs]) hp
    cases stretch with
    | outside c => exact hrest (by simpa [Stretch.spansFrom, Stretch.text] using hp)
    | region u =>
      rcases List.mem_cons.mp hp with rfl | hp
      · have hne : u ≠ [] := fun hnil ↦ hss.1 (by rw [hnil])
        have hpos := List.length_pos_iff.mpr hne
        have hlen : s.length + u.length - 1 + 1 - s.length = u.length := by omega
        simp only [List.flatMap_cons, Stretch.text]
        rw [slice_append, ← hs, slice_append, hs, hlen, List.take_left, List.take_left]
      · exact hrest (by simpa [Stretch.text] using hp)
  | @move u v ss ss' huv _ ih =>
    rw [spansFrom_outside, ← List.length_append] at hp
    have hlater := ih (fun h ↦ hss (List.mem_append_right _ h)) (s ++ u) (s' ++ v)
      (by simp [hs, huv.perm.length_eq]) hp
    rwa [flatMap_text_outside, flatMap_text_outside, ← List.append_assoc, ← List.append_assoc]

/-- What no token begins in was outside the regions. -/
theorem exists_outside_of_prefix {r : Registry} (hu : tokenOpen ∉ u)
    (h : (Part.conceal (ss.map Stretch.toPart) r).1 = u ++ t) : ∃ ss₁,
      ss = u.map .outside ++ ss₁ ∧ t = (Part.conceal (ss₁.map Stretch.toPart) r).1 := by
  induction u generalizing ss with
  | nil => exact ⟨ss, rfl, h.symm⟩
  | cons c u ih =>
    rw [List.mem_cons, not_or] at hu
    cases ss with
    | nil => simp [Part.conceal] at h
    | cons s ss =>
      cases s with
      | outside d =>
        obtain ⟨rfl, hrest⟩ := List.cons.inj h
        obtain ⟨ss₁, rfl, ht⟩ := ih hu.2 hrest
        exact ⟨ss₁, rfl, ht⟩
      | region w => exact absurd (List.cons.inj h).1 hu.1

theorem conceal_outside (u : Text) (ss : List Stretch) (r : Registry) :
    Part.conceal ((u.map Stretch.outside ++ ss).map Stretch.toPart) r =
      (u ++ (Part.conceal (ss.map Stretch.toPart) r).1,
        (Part.conceal (ss.map Stretch.toPart) r).2) := by
  induction u with
  | nil => rfl
  | cons c u ih =>
    rw [List.map_cons, List.cons_append, List.map_cons, Stretch.toPart, Part.conceal, ih]
    rfl

/-- A move in a text with hidden regions is one between them. -/
theorem exists_movesQuotes {E : (b u r v : Text) → Prop}
    (hE : ∀ {b u r v}, E b u r v → MovesQuote u v) {r : Registry} (hr : r.Proper)
    (h : Edits E b (Part.conceal (ss.map Stretch.toPart) r).1 t) : ∃ ss',
      MovesQuotes ss ss' ∧ t = (Part.conceal (ss'.map Stretch.toPart) r).1 := by
  have hstart {b u r v} (he : E b u r v) := (hE he).exists_cons
  induction hn : ss.length using Nat.strongRecOn generalizing b r ss t with
  | _ n ih =>
    cases ss with
    | nil =>
      have hnil := h.eq_nil fun he ↦ by
        obtain ⟨c, u, rfl, -⟩ := hstart he
        simp
      exact ⟨[], .nil, hnil⟩
    | cons s ss =>
      cases s with
      | region w =>
        have htoken : ∀ c ∈ r.token r.size, isTokenChar c := fun c ↦
          isTokenChar_of_mem (tokenLike_token hr) ⟨_, rfl⟩
        obtain ⟨t, rfl, hrest⟩ := edits_token_append hstart htoken h
        obtain ⟨ss', hmoves, rfl⟩ := ih ss.length (by simp [← hn]) (r := (r.add w).2) hr hrest rfl
        exact ⟨.region w :: ss', .keep hmoves, rfl⟩
      | outside c =>
        generalize hl : (Part.conceal ((Stretch.outside c :: ss).map Stretch.toPart) r).1 = l at h
        cases h with
        | nil => simp [Part.conceal, Stretch.toPart] at hl
        | keep h =>
          obtain ⟨rfl, rfl⟩ := List.cons.inj hl
          obtain ⟨ss', hmoves, rfl⟩ := ih ss.length (by simp [← hn]) hr h rfl
          exact ⟨.outside c :: ss', .keep hmoves, rfl⟩
        | @edit _ u rest v _ he h =>
          -- The edit may reach over several characters, all of them outside regions.
          obtain ⟨ss₁, hss, rfl⟩ := exists_outside_of_prefix (hE he).not_mem hl
          have hlen : ss₁.length < n := by
            obtain ⟨d, u, rfl, -⟩ := hstart he
            rw [← hn, hss]
            simp only [List.length_append, List.length_map, List.length_cons]
            omega
          obtain ⟨ss', hmoves, rfl⟩ := ih ss₁.length hlen hr h rfl
          refine ⟨v.map .outside ++ ss', hss ▸ .move (hE he) hmoves, ?_⟩
          rw [conceal_outside]

theorem MovesQuotes.registry_eq (h : MovesQuotes ss ss') (r : Registry) :
    (Part.conceal (ss'.map Stretch.toPart) r).2 = (Part.conceal (ss.map Stretch.toPart) r).2 := by
  induction h generalizing r with
  | nil => rfl
  | @keep s _ _ _ ih => cases s <;> exact ih _
  | move _ _ ih => rw [conceal_outside, conceal_outside, ih]

variable {line : Text}

/-- The two steps of the rule, each with the regions hidden. -/
theorem exists_movesQuotes_fixMalformedArrowLabels [Nonces] (hline : tokenOpen ∉ line) : ∃ ss₁ ss₂,
    MovesQuotes (Stretch.ofText square line) ss₁ ∧ MovesQuotes ss₁ ss₂ ∧
      fixMalformedArrowLabels line = ss₂.flatMap Stretch.text := by
  have hcut := (cuts_ofText square line).flatMap_text
  rw [fixMalformedArrowLabels]
  split
  · exact ⟨_, _, .refl _, .refl _, hcut.symm⟩
  · have hproper : (fresh "BR" line).Proper := proper_fresh (by decide) line
    obtain ⟨ss₁, hclosed, htext₁⟩ := exists_movesQuotes
      (fun he ↦ by cases he; exact .before) hproper (closeLabelBeforeArrow_edits _)
    have hedits := openLabelAfterDashes_edits (closeLabelBeforeArrow (hideBracketRegions line).1)
    obtain ⟨ss₂, hopened, htext₂⟩ := exists_movesQuotes
      (fun he ↦ by cases he; exact .after) hproper (htext₁ ▸ hedits)
    have hregistry : (hideBracketRegions line).2 =
        (Part.conceal (ss₂.map Stretch.toPart) (.fresh "BR" line)).2 := by
      rw [hopened.registry_eq, hclosed.registry_eq, hideBracketRegions]
    have hshown : openLabelAfterDashes (closeLabelBeforeArrow (hideBracketRegions line).1) =
        (Part.conceal (ss₂.map Stretch.toPart) (.fresh "BR" line)).1 := by
      rw [← htext₂, ← htext₁]
      rfl
    have htext : (ss₂.map Stretch.toPart).flatMap Part.text = ss₂.flatMap Stretch.text := by
      rw [List.flatMap_map]
      simp only [text_toPart]
    have hopen : tokenOpen ∉ ss₂.flatMap Stretch.text := by
      rwa [(hopened.perm.trans hclosed.perm).mem_iff, hcut]
    refine ⟨ss₁, ss₂, hclosed, hopened, ?_⟩
    simp only [hregistry, hshown]
    rw [Part.restore_conceal (htext ▸ hopen), htext]

/-- Only quotes and blanks move: nothing is added or lost, and the regions stay where they are with
what they hold. -/
theorem fixMalformedArrowLabels_keeps_regions [Nonces] (hline : tokenOpen ∉ line) :
    (fixMalformedArrowLabels line).length = line.length ∧
    square.regions (fixMalformedArrowLabels line) = square.regions line ∧
    (∀ i j, Outermost '[' ']' line i j →
      slice (fixMalformedArrowLabels line) i j = slice line i j) ∧
    wording isQuoteOrSpace (fixMalformedArrowLabels line) = wording isQuoteOrSpace line ∧
    (fixMalformedArrowLabels line).Perm line := by
  obtain ⟨ss₁, ss₂, hclosed, hopened, heq⟩ := exists_movesQuotes_fixMalformedArrowLabels hline
  have hcut := cuts_ofText square line
  have hperm := hopened.perm.trans hclosed.perm
  have hregions := (regions_congr hopened.alike).trans (regions_congr hclosed.alike)
  have hwording := hopened.wording_eq.trans hclosed.wording_eq
  rw [← heq, hcut.flatMap_text] at hperm hregions hwording
  refine ⟨hperm.length_eq, hregions, fun i j hij ↦ ?_, hwording, hperm⟩
  have hp : (i, j) ∈ Stretch.spansFrom 0 (Stretch.ofText square line) :=
    (mem_regions_iff (by decide)).mpr hij
  have hne : .region [] ∉ Stretch.ofText square line := fun hmem ↦ by
    obtain ⟨_, _, _, _, _, -, hnil, -⟩ := hcut.exists_of_mem hmem
    simp at hnil
  have hfirst := hclosed.slice_eq hne [] [] rfl hp
  have hsecond := hopened.slice_eq (mt hclosed.region_mem_iff.mp hne) [] [] rfl
    ((hclosed.spansFrom_eq 0).symm ▸ hp)
  rw [List.nil_append, List.nil_append] at hfirst hsecond
  rw [heq, hsecond, hfirst, hcut.flatMap_text]

section

attribute [local instance] Nonces.zeros

/-- The arrow inside the brackets stays, the one that the quote swallowed comes out. -/
theorem fixMalformedArrowLabels_keeps_regions_feeds :
    let line := Text.of "A[\"x -->\" y\"] -- \"Feeds -->\" B"
    tokenOpen ∉ line ∧
      fixMalformedArrowLabels line = Text.of "A[\"x -->\" y\"] -- \"Feeds\" --> B" ∧
      square.regions (fixMalformedArrowLabels line) = [(1, 12)] ∧
      slice (fixMalformedArrowLabels line) 1 12 = Text.of "[\"x -->\" y\"]" := by
  intro line
  have hline : tokenOpen ∉ line := by decide
  obtain ⟨-, hregions, hslice, -⟩ := fixMalformedArrowLabels_keeps_regions hline
  have hspans : square.regions line = [(1, 12)] := by decide
  have houter : Outermost '[' ']' line 1 12 :=
    (mem_regions_iff (by decide)).mp (hspans ▸ List.mem_singleton.mpr rfl)
  exact ⟨hline, by decide, hregions.trans hspans, (hslice 1 12 houter).trans (by decide)⟩

end

end DiagramRepair.Rule
