import DiagramRepair.Proofs.Placeholder.Hiding
import DiagramRepair.Proofs.Placeholder.Rows

namespace DiagramRepair

open Pattern Registry

variable {T : Text → Prop} {b u r t content : Text} {gs : Groups} {c : Char}

theorem takes_codeName :
    (many1 (one isWordChar) ||| many1 (one Text.isDecimalDigit)).Takes b u r gs ↔
      (u ≠ [] ∧ ((∀ c ∈ u, isWordChar c) ∨ ∀ c ∈ u, Text.isDecimalDigit c)) ∧ gs = [] := by
  simp only [takes_or, takes_many1_one, ← and_assoc, ← or_and_right, ← and_or_left]

theorem takes_escapePattern : escapePattern.Takes b u r gs ↔
    ((∃ c, u = ['\\', c] ∧ c ≠ '\n') ∨ ∃ x, u = '#' :: (x ++ [';']) ∧ x ≠ [] ∧
      ((∀ c ∈ x, isWordChar c) ∨ ∀ c ∈ x, Text.isDecimalDigit c)) ∧ gs = [] := by
  simp only [escapePattern, any, takes_or, takes_append_one, takes_append_sign, takes_sign,
    takes_append_of (fun _ _ _ _ ↦ takes_codeName), bne_iff_ne]
  constructor
  · rintro (⟨_, c, rfl, hc, rfl, rfl⟩ | ⟨_, rfl, _, x, rfl, hx, rfl, rfl⟩)
    · exact ⟨.inl ⟨c, rfl, hc⟩, rfl⟩
    · exact ⟨.inr ⟨x, rfl, hx⟩, rfl⟩
  · rintro ⟨⟨c, rfl, hc⟩ | ⟨x, rfl, hx⟩, rfl⟩
    · exact .inl ⟨_, c, rfl, hc, rfl, rfl⟩
    · exact .inr ⟨_, rfl, _, x, rfl, hx, rfl, rfl⟩

theorem exists_of_escapePattern (h : escapePattern.Takes b u r gs) :
    '\n' ∉ u ∧ ∃ c v, u = c :: v ∧ (c = '\\' ∨ c = '#') := by
  rcases (takes_escapePattern.mp h).1 with ⟨c, rfl, hc⟩ | ⟨x, rfl, -, hx⟩
  · exact ⟨by simp [Ne.symm hc], '\\', [c], rfl, .inl rfl⟩
  · have hnewline : '\n' ∉ x := by
      rcases hx with hx | hx <;> exact not_mem_of_class hx (by decide)
    exact ⟨by simp [hnewline], '#', x ++ [';'], rfl, .inr rfl⟩

theorem takes_escapedChar (hc : c ≠ '\n') : escapePattern.Takes b ['\\', c] r [] :=
  takes_escapePattern.mpr ⟨.inl ⟨c, rfl, hc⟩, rfl⟩

theorem scans_escapes (content : Text) :
    Scans escapePattern [] content (escapePattern.pieces content) :=
  scans_pieces (by decide) (by decide) content

theorem Pattern.Scans.flatMap_text {p : Pattern} {ps : List Piece} (h : Scans p b t ps) :
    (ps.map Piece.toPart).flatMap Part.text = t := by
  induction h with
  | nil => rfl
  | plain _ _ ih => simpa [Piece.toPart, Part.text] using ih
  | found _ _ ih => simpa [Piece.toPart, Part.text] using ih

theorem flatMap_text_escapes (content : Text) :
    (Part.ofPattern escapePattern content).flatMap Part.text = content :=
  (scans_escapes content).flatMap_text

theorem exists_of_hidden_escape (hu : .hidden u ∈ Part.ofPattern escapePattern content) :
    u <:+: content ∧ '\n' ∉ u ∧ ∃ c v, u = c :: v ∧ (c = '\\' ∨ c = '#') := by
  obtain ⟨piece, hpiece, hpart⟩ := List.mem_map.mp hu
  cases piece with
  | plain c => simp at hpart
  | found m =>
    obtain rfl := Part.hidden.inj hpart
    obtain ⟨⟨gs, h, -⟩, hpart⟩ := (scans_escapes content).of_mem hpiece
    exact ⟨hpart, exists_of_escapePattern h⟩

theorem hideEscapes_of_not_mem [Nonces] (hback : '\\' ∉ content) (hhash : '#' ∉ content) :
    (hideEscapes content).1 = content := by
  have hshown : ∀ u, .hidden u ∉ Part.ofPattern escapePattern content := by
    intro u hu
    obtain ⟨hpart, -, c, v, rfl, hc⟩ := exists_of_hidden_escape hu
    have hmem : c ∈ content := hpart.subset (by simp)
    rcases hc with rfl | rfl
    · exact hback hmem
    · exact hhash hmem
  rw [hideEscapes, hideMatches, Part.conceal_of_shown hshown, flatMap_text_escapes]

theorem hideEscapes_registry [Nonces] (content : Text) :
    (hideEscapes content).2.Proper ∧ (hideEscapes content).2.tag = Text.of "ESC" := by
  rw [hideEscapes, hideMatches, Part.conceal_registry]
  exact ⟨proper_fresh (by decide) content, rfl⟩

/-- An escape begins with a character that no token holds, so it is no part of a token line. -/
theorem tokenOpen_not_mem_escape (hT : TokenLike T) (ht : TokensAlone T content)
    (hu : .hidden u ∈ Part.ofPattern escapePattern content) : tokenOpen ∉ u := by
  obtain ⟨hpart, hnewline, c, v, rfl, hc⟩ := exists_of_hidden_escape hu
  obtain ⟨l, hl, hpart⟩ := Text.exists_mem_lines_of_infix hnewline hpart
  rcases ht l hl with hno | hl
  · exact fun h ↦ hno (hpart.subset h)
  · have htoken := isTokenChar_of_mem hT hl (c := c) (hpart.subset (by simp))
    rcases hc with rfl | rfl <;> exact absurd htoken (by decide)

theorem skirtsRows_escape (hT : TokenLike T) (ht : TokensAlone T content)
    (hu : .hidden u ∈ Part.ofPattern escapePattern content) : SkirtsRows u := by
  obtain ⟨-, hnewline, c, v, rfl, hc⟩ := exists_of_hidden_escape hu
  refine ⟨tokenOpen_not_mem_escape hT ht hu, ⟨c, v, rfl, ?_⟩, ?_⟩
  · rcases hc with rfl | rfl <;> decide
  · exact fun hlast ↦ hnewline (List.mem_of_getLast? hlast)

theorem of_mem_escapes [Nonces] (hT : TokenLike T) (ht : TokensAlone T content)
    (hu : u ∈ (hideEscapes content).2.pieces) : tokenOpen ∉ u ∧ '\n' ∉ u := by
  rcases Part.mem_pieces_conceal hu with hu | hu
  · simp [fresh] at hu
  · exact ⟨tokenOpen_not_mem_escape hT ht hu, (exists_of_hidden_escape hu).2.1⟩

theorem intact_hideEscapes [Nonces] (hT : TokenLike T) (ht : TokensAlone T content) :
    Intact ((hideEscapes content).2.Known T) (hideEscapes content).1 := by
  refine Part.intact_conceal hT (proper_fresh (by decide) content) (fun u hu ↦ ?_) ?_
  · obtain ⟨-, -, c, v, rfl, hc⟩ := exists_of_hidden_escape hu
    refine ⟨by simp, stops_cons ?_⟩
    rcases hc with rfl | rfl <;> decide
  · rw [flatMap_text_escapes]
    exact ht.intact hT

theorem keepsRows_hideEscapes [Nonces] (hT : TokenLike T) (ht : TokensAlone T content) :
    KeepsRows T content (hideEscapes content).1 := by
  have hedits : Edits (fun _ u _ _ ↦ SkirtsRows u) []
      ((Part.ofPattern escapePattern content).flatMap Part.text) (hideEscapes content).1 :=
    Part.edits_conceal (fun _ _ hu _ ↦ skirtsRows_escape hT ht hu) []
  rw [flatMap_text_escapes] at hedits
  exact keepsRows_of_edits hT (fun he ↦ he) hedits

def BackslashesLast (t : Text) : Prop := ∀ s v, t = s ++ '\\' :: v → ∀ c ∈ v.head?, c = '\n'

theorem BackslashesLast.cons (hc : c = '\\' → ∀ d ∈ t.head?, d = '\n') (h : BackslashesLast t) :
    BackslashesLast (c :: t) := by
  rintro (_ | ⟨d, s⟩) v ht
  · obtain ⟨rfl, rfl⟩ := List.cons.inj ht
    exact hc rfl
  · exact h s v (List.cons.inj ht).2

theorem BackslashesLast.append_of_not_mem {s : Text} (hs : '\\' ∉ s) (h : BackslashesLast t) :
    BackslashesLast (s ++ t) := by
  induction s with
  | nil => exact h
  | cons c s ih =>
    rw [List.mem_cons, not_or] at hs
    exact .cons (fun hc ↦ absurd hc.symm hs.1) (ih hs.2)

theorem backslashesLast_conceal {ps : List Piece} (h : Scans escapePattern b t ps) {r : Registry}
    (hr : r.Proper) : BackslashesLast (Part.conceal (ps.map Piece.toPart) r).1 := by
  induction h generalizing r with
  | nil => simp [Part.conceal, BackslashesLast]
  | @plain b t c ps hfree h ih =>
    refine .cons ?_ (ih hr)
    rintro rfl
    have hnext : ∀ d ∈ t.head?, d = '\n' := by
      intro d hd
      obtain ⟨t, rfl⟩ := List.head?_eq_some_iff.mp hd
      by_contra hne
      exact hfree ['\\', d] t [] rfl (takes_escapedChar hne)
    generalize '\\' :: b = b' at h
    cases h with
    | nil => simp [Part.conceal]
    | @plain _ _ d _ _ _ => simpa [Piece.toPart, Part.conceal] using hnext d rfl
    | found hm _ =>
      obtain ⟨gs, h, -⟩ := hm
      obtain ⟨-, d, v, hu, hd⟩ := exists_of_escapePattern h
      have hd' := hnext d (by simp [hu])
      rcases hd with rfl | rfl <;> simp at hd'
  | found hm h ih =>
    have htoken : '\\' ∉ r.token r.size :=
      (tokenLike_token hr).not_mem ⟨_, rfl⟩ (by decide)
    exact (ih (r := (r.add _).2) hr).append_of_not_mem htoken

theorem BackslashesLast.backslashAtEnd {l : Text} (h : BackslashesLast t) (hl : l ∈ Text.lines t) :
    Text.BackslashAtEnd l := by
  induction t using Text.lines_induction with
  | single t ht =>
    obtain rfl := List.mem_singleton.mp (Text.lines_of_not_mem ht ▸ hl)
    rintro s (_ | ⟨c, v⟩) hs
    · rfl
    · obtain rfl := h s _ hs c rfl
      simp [hs] at ht
  | cons l' t hl' ih =>
    rw [Text.lines_cons_newline hl', List.mem_cons] at hl
    rcases hl with rfl | hl
    · rintro s (_ | ⟨c, v⟩) rfl
      · rfl
      · obtain rfl := h s (c :: v ++ '\n' :: t) (by simp) c rfl
        simp at hl'
    · refine ih ?_ hl
      rintro s v rfl
      exact h (l' ++ '\n' :: s) v (by simp)

theorem backslashAtEnd_hideEscapes [Nonces] {l : Text} (hl : l ∈ Text.lines (hideEscapes content).1) :
    Text.BackslashAtEnd l := by
  have hproper : (fresh "ESC" content).Proper := proper_fresh (by decide) content
  exact (backslashesLast_conceal (scans_escapes content) hproper).backslashAtEnd hl

end DiagramRepair
