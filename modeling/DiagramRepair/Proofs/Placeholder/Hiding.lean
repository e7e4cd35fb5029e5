import DiagramRepair.Proofs.Bracket
import DiagramRepair.Proofs.Placeholder.Restore
import Mathlib.Data.List.Forall2

namespace DiagramRepair

open Pattern Registry

namespace Part

variable {r : Registry} {T : Text → Prop} {ps : List Part} {u b t : Text}

def hidden? : Part → Option Text
  | shown _ => none
  | hidden t => some t

theorem conceal_registry (ps : List Part) (r : Registry) :
    (conceal ps r).2 =
      { r with pieces := (r.pieces.toList ++ ps.filterMap hidden?).toArray } := by
  induction ps generalizing r with
  | nil => simp [conceal]
  | cons p ps ih =>
    cases p with
    | shown s => exact ih r
    | hidden s =>
      rw [conceal, ih (r.add s).2]
      simp [hidden?, add]

theorem mem_pieces_conceal (h : u ∈ (conceal ps r).2.pieces) : u ∈ r.pieces ∨ .hidden u ∈ ps := by
  simp only [conceal_registry, List.mem_toArray, List.mem_append, Array.mem_toList_iff,
    List.mem_filterMap] at h
  rcases h with h | ⟨p, hp, h⟩
  · exact .inl h
  · cases p with
    | shown s => simp [hidden?] at h
    | hidden s =>
      obtain rfl := Option.some.inj h
      exact .inr hp

theorem conceal_hidden (u : Text) (ps : List Part) (r : Registry) :
    (conceal (.hidden u :: ps) r).1 = r.token r.size ++ (conceal ps (r.add u).2).1 ∧
      (conceal (.hidden u :: ps) r).2.token r.size = r.token r.size ∧
      (conceal (.hidden u :: ps) r).2.pieces[r.size]? = some u := by
  refine ⟨rfl, ?_, ?_⟩
  · rw [conceal_registry]
    rfl
  · rw [conceal_registry]
    simp [hidden?, size]

theorem conceal_of_shown (h : ∀ u, .hidden u ∉ ps) : (conceal ps r).1 = ps.flatMap text := by
  induction ps generalizing r with
  | nil => rfl
  | cons p ps ih =>
    cases p with
    | shown s =>
      rw [conceal, List.flatMap_cons, ← ih fun u hu ↦ h u (by simp [hu])]
      rfl
    | hidden s => exact absurd (by simp) (h s)

/-- What was hidden comes back, where no shown character could begin a token. -/
theorem restore_conceal (hps : tokenOpen ∉ ps.flatMap text) :
    (conceal ps r).2.restore (conceal ps r).1 = ps.flatMap text := by
  induction ps generalizing r with
  | nil => exact restore_nil
  | cons p ps ih =>
    rw [List.flatMap_cons, List.mem_append, not_or] at hps
    cases p with
    | shown s =>
      change (conceal ps r).2.restore (s ++ (conceal ps r).1) = s ++ ps.flatMap text
      rw [restore_append_of_not_mem (s := s) hps.1, ih hps.2]
    | hidden s =>
      obtain ⟨htext, htoken, hpiece⟩ := conceal_hidden s ps r
      obtain ⟨hsize, hpiece⟩ := Array.getElem?_eq_some_iff.mp hpiece
      rw [htext, ← htoken, restore_token_append hsize, hpiece, List.flatMap_cons]
      exact congrArg (s ++ ·) (ih hps.2)

theorem edits_conceal {E : (u v : Text) → Prop}
    (hE : ∀ u v, .hidden u ∈ ps → (conceal ps r).2.Issued v → E u v) (b : Text) :
    Edits (fun _ u _ v ↦ E u v) b (ps.flatMap text) (conceal ps r).1 := by
  induction ps generalizing r b with
  | nil => exact .nil b
  | cons p ps ih =>
    cases p with
    | shown s => exact (ih (fun u v hu hv ↦ hE u v (by simp [hu]) hv) _).keep_append _ _
    | hidden s =>
      obtain ⟨htext, htoken, hpiece⟩ := conceal_hidden s ps r
      rw [htext]
      refine .edit (hE s _ (by simp) ⟨r.size, ?_, htoken.symm⟩)
        (ih (fun u v hu hv ↦ hE u v (by simp [hu]) hv) _)
      exact (Array.getElem?_eq_some_iff.mp hpiece).1

/-- Hiding keeps tokens whole where no hidden part begins inside a token. -/
theorem intact_conceal (hT : TokenLike T) (hr : r.Proper)
    (hstops : ∀ u, .hidden u ∈ ps → u ≠ [] ∧ Stops u) (ht : Intact T (ps.flatMap text)) :
    Intact ((conceal ps r).2.Known T) (conceal ps r).1 := by
  have hproper : (conceal ps r).2.Proper := by
    rw [conceal_registry]
    exact hr
  have hedits : Edits (fun _ u _ v ↦ (u ≠ [] ∧ Stops u) ∧ (conceal ps r).2.Issued v) []
      (ps.flatMap text) (conceal ps r).1 :=
    edits_conceal (fun u _ hu hv ↦ ⟨hstops u hu, hv⟩) []
  refine Intact.edits (w := []) (fun _ hk ↦ .inr hk) ?_ hedits ht
  rintro b u rest v w ⟨⟨hne, hu⟩, hv⟩ h
  obtain ⟨c, u, rfl⟩ := List.exists_cons_of_ne_nil hne
  have hw := h.left hT (stops_cons (hu c rfl))
  exact (hw.mono fun _ hk ↦ .inr hk).append
    (((tokenLike_issued hproper).intact hv).mono fun _ hk ↦ .inl hk)

def StandsFor (hides : Text → Bool) (r : Registry) (l l' : Text) : Prop :=
  if hides l then ∃ n, r.pieces[n]? = some l ∧ l' = r.token n else l' = l

def ofLine (hides : Text → Bool) (l : Text) : Part := if hides l then hidden l else shown l

theorem conceal_ofLine (hides : Text → Bool) (l : Text) (ps : List Part) (r : Registry) :
    ∃ l' r', conceal (ofLine hides l :: ps) r = (l' ++ (conceal ps r').1, (conceal ps r').2) ∧
      StandsFor hides (conceal ps r').2 l l' := by
  by_cases hl : hides l
  · obtain ⟨htext, htoken, hpiece⟩ := conceal_hidden l ps r
    refine ⟨r.token r.size, (r.add l).2, by simp [ofLine, hl, conceal, add], ?_⟩
    rw [StandsFor, if_pos hl]
    exact ⟨r.size, hpiece, htoken.symm⟩
  · exact ⟨l, r, by simp [ofLine, hl, conceal], by simp [StandsFor, hl]⟩

theorem conceal_lines (hides : Text → Bool) {ls : List Text} (hls : ls ≠ []) (r : Registry) :
    ∃ ls', (conceal ((ls.map (ofLine hides)).intersperse (shown ['\n'])) r).1 = Text.unlines ls' ∧
      List.Forall₂ (StandsFor hides
        (conceal ((ls.map (ofLine hides)).intersperse (shown ['\n'])) r).2) ls ls' := by
  induction ls generalizing r with
  | nil => exact absurd rfl hls
  | cons l ls ih =>
    cases ls with
    | nil =>
      obtain ⟨l', r', hconceal, hl'⟩ := conceal_ofLine hides l [] r
      refine ⟨[l'], ?_, ?_⟩
      · simp [hconceal, conceal, Text.unlines_singleton]
      · simpa [hconceal] using hl'
    | cons l₁ ls =>
      obtain ⟨l', r', hconceal, hl'⟩ := conceal_ofLine hides l
        (shown ['\n'] :: ((l₁ :: ls).map (ofLine hides)).intersperse (shown ['\n'])) r
      obtain ⟨ls', htext, hls'⟩ := ih (by simp) r'
      have hne : ls' ≠ [] := by
        rintro rfl
        cases hls'
      refine ⟨l' :: ls', ?_, ?_⟩
      · rw [Text.unlines_cons hne, ← htext]
        exact congrArg Prod.fst hconceal
      · have hregistry := congrArg Prod.snd hconceal
        refine .cons ?_ ?_
        · exact hregistry ▸ hl'
        · exact hregistry ▸ hls'

theorem mem_of_hidden_line {hides : Text → Bool} {ls : List Text}
    (h : .hidden u ∈ (ls.map (ofLine hides)).intersperse (shown ['\n'])) : u ∈ ls ∧ hides u := by
  have hline : ∀ l, .hidden u = ofLine hides l → u = l ∧ hides u := by
    intro l hl
    rw [ofLine] at hl
    split at hl
    · obtain rfl := hidden.inj hl
      exact ⟨rfl, ‹_›⟩
    · simp at hl
  induction ls with
  | nil => simp at h
  | cons l ls ih =>
    cases ls with
    | nil =>
      obtain ⟨rfl, hu⟩ := hline l (List.mem_singleton.mp h)
      exact ⟨by simp, hu⟩
    | cons l₁ ls =>
      rw [List.map_cons, List.map_cons, List.intersperse_cons_cons, List.mem_cons,
        List.mem_cons] at h
      rcases h with h | h | h
      · obtain ⟨rfl, hu⟩ := hline l h
        exact ⟨by simp, hu⟩
      · simp at h
      · obtain ⟨hmem, hu⟩ := ih h
        exact ⟨List.mem_cons_of_mem l hmem, hu⟩

end Part

theorem exists_of_forall₂ {α β : Type} {R : α → β → Prop} {ls : List α} {ls' : List β} {l' : β}
    (h : List.Forall₂ R ls ls') (hl' : l' ∈ ls') : ∃ l ∈ ls, R l l' := by
  induction h with
  | nil => simp at hl'
  | @cons l l₁ ls ls' hl _ ih =>
    rcases List.mem_cons.mp hl' with rfl | hl'
    · exact ⟨l, by simp, hl⟩
    · obtain ⟨l₂, hmem, hl₂⟩ := ih hl'
      exact ⟨l₂, by simp [hmem], hl₂⟩

theorem newline_not_mem_token {r : Registry} (hr : r.Proper) (n : Nat) : '\n' ∉ r.token n :=
  (tokenLike_token hr).not_mem ⟨n, rfl⟩ (by decide)

theorem proper_hideLines [Nonces] (hides : Text → Bool) {tag : String}
    (htag : ∀ c ∈ tag.toList, isTokenNameChar c) (t : Text) : (hideLines hides tag t).2.Proper := by
  rw [hideLines, Part.conceal_registry]
  exact proper_fresh htag t

theorem of_mem_hideLines [Nonces] {hides : Text → Bool} {tag : String} {t l : Text}
    (h : l ∈ (hideLines hides tag t).2.pieces) : l ∈ Text.lines t ∧ hides l := by
  rcases Part.mem_pieces_conceal h with h | h
  · simp [fresh] at h
  · exact Part.mem_of_hidden_line h

theorem lines_hideLines [Nonces] (hides : Text → Bool) {tag : String}
    (htag : ∀ c ∈ tag.toList, isTokenNameChar c) (t : Text) :
    List.Forall₂ (Part.StandsFor hides (hideLines hides tag t).2) (Text.lines t)
      (Text.lines (hideLines hides tag t).1) := by
  obtain ⟨ls, htext, hls⟩ := Part.conceal_lines hides (Text.lines_ne_nil t) (fresh tag t)
  have hshown : (hideLines hides tag t).1 = Text.unlines ls := htext
  have hne : ls ≠ [] := by
    rintro rfl
    have hlength := hls.length_eq
    simp [Text.lines_ne_nil] at hlength
  have hnewline : ∀ l ∈ ls, '\n' ∉ l := by
    intro l' hl'
    obtain ⟨l, hl, hstands⟩ := exists_of_forall₂ hls hl'
    rw [Part.StandsFor] at hstands
    split at hstands
    · obtain ⟨n, -, rfl⟩ := hstands
      exact newline_not_mem_token (proper_hideLines hides htag t) n
    · rw [hstands]
      exact Text.newline_not_mem_of_mem_lines hl
  rw [hshown, Text.lines_unlines hne hnewline]
  exact hls

def Piece.toPart : Piece → Part
  | .plain c => .shown [c]
  | .found m => .hidden m.whole

theorem Part.ofPattern_eq (p : Pattern) (t : Text) :
    Part.ofPattern p t = (p.pieces t).map Piece.toPart := rfl

theorem text_toPart (s : Stretch) : s.toPart.text = s.text := by
  cases s <;> rfl

theorem exists_of_hidden_region {u t : Text}
    (hu : .hidden u ∈ (Stretch.ofText .square t).map Stretch.toPart) :
    ∃ s r x, t = s ++ (u ++ r) ∧ u = '[' :: (x ++ [']']) := by
  obtain ⟨stretch, hmem, hstretch⟩ := List.mem_map.mp hu
  cases stretch with
  | outside c => simp [Stretch.toPart] at hstretch
  | region v =>
    obtain rfl := Part.hidden.inj hstretch
    obtain ⟨s, r, o, x, c, ht, rfl, ho, hc⟩ := (cuts_ofText .square t).exists_of_mem hmem
    rw [Brackets.square_opens.mp ho, Brackets.square_closes.mp hc] at ht ⊢
    exact ⟨s, r, x, ht, rfl⟩

variable {T : Text → Prop} {t : Text}

theorem hideBracketRegions_registry [Nonces] (t : Text) :
    (hideBracketRegions t).2.Proper ∧ (hideBracketRegions t).2.tag = Text.of "BR" := by
  rw [hideBracketRegions, Part.conceal_registry]
  exact ⟨proper_fresh (by decide) t, rfl⟩

theorem intact_hideBracketRegions [Nonces] (hT : TokenLike T) (ht : Intact T t) :
    Intact ((hideBracketRegions t).2.Known T) (hideBracketRegions t).1 := by
  refine Part.intact_conceal hT (proper_fresh (by decide) t) (fun u hu ↦ ?_) ?_
  · obtain ⟨s, r, x, -, rfl⟩ := exists_of_hidden_region hu
    exact ⟨by simp, stops_cons (by decide)⟩
  · rw [List.flatMap_map]
    simpa only [text_toPart, (cuts_ofText .square t).flatMap_text] using ht

theorem restore_hideBracketRegions [Nonces] (ht : tokenOpen ∉ t) :
    (hideBracketRegions t).2.restore (hideBracketRegions t).1 = t := by
  have htext : ((Stretch.ofText .square t).map Stretch.toPart).flatMap Part.text = t := by
    rw [List.flatMap_map]
    simpa only [text_toPart] using (cuts_ofText .square t).flatMap_text
  have hback := Part.restore_conceal (r := .fresh "BR" t) (htext.symm ▸ ht)
  rwa [htext] at hback

/-- What is still shown, and begins outside a token, was there before. -/
theorem infix_of_shown [Nonces] (ht : tokenOpen ∉ t) {s u r : Text}
    (hshown : (hideBracketRegions t).1 = s ++ (u ++ r)) (hu : tokenOpen ∉ u)
    (hstops : Stops (u ++ r)) : u <:+: t := by
  obtain ⟨hproper, -⟩ := hideBracketRegions_registry t
  have hapart : (hideBracketRegions t).2.Apart (fun _ ↦ False) :=
    ⟨hproper, fun _ hk ↦ hk.elim, fun _ hk ↦ hk.elim⟩
  have hintact := intact_hideBracketRegions hapart.tokenLike (intact_of_not_mem ht)
  rw [hshown] at hintact
  have hleft := hintact.left hapart.tokenLike_known hstops
  have hback := restore_hideBracketRegions ht
  rw [hshown, restore_append hapart hleft, restore_append_of_not_mem hu] at hback
  exact ⟨_, _, by rw [List.append_assoc]; exact hback⟩

theorem intact_of_mem_bracketRegions [Nonces] (hT : TokenLike T) (ht : Intact T t) {u : Text}
    (hu : u ∈ (hideBracketRegions t).2.pieces) : Intact T u := by
  rcases Part.mem_pieces_conceal hu with hu | hu
  · simp [fresh] at hu
  · obtain ⟨s, r, x, rfl, rfl⟩ := exists_of_hidden_region hu
    have hregion := ht.of_append
    rw [List.cons_append, List.append_assoc] at hregion
    exact Intact.left_snoc (s := '[' :: x) (t := r) (by simpa using hregion) hT (by decide)

end DiagramRepair
