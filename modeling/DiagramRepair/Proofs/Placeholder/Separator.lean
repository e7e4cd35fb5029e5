import DiagramRepair.Placeholder.Hiding
import DiagramRepair.Proofs.Text.Lines
import DiagramRepair.Proofs.Pattern.Search

namespace DiagramRepair

open Pattern

variable {b u r s p t last line : Text} {gs : Groups} {cells : List Text}

def IsOptColon (t : Text) : Prop := t = [':'] ∨ t = []

/-- Dashes with a colon on either side or without, and blanks around each of these parts. -/
def IsCell (p : Text) : Prop :=
  ∃ s₁ left s₂ dashes s₃ right s₄ : Text,
    p = s₁ ++ left ++ s₂ ++ dashes ++ s₃ ++ right ++ s₄ ∧
    (∀ s ∈ [s₁, s₂, s₃, s₄], Text.isAllBlank s) ∧ IsOptColon left ∧ IsOptColon right ∧
    dashes ≠ [] ∧ ∀ c ∈ dashes, c = '-'

def barred (cells : List Text) : Text := cells.flatMap (· ++ ['|'])

theorem isAllBlank_iff : Text.isAllBlank t ↔ ∀ c ∈ t, Text.isBlank c := by
  rw [Text.isAllBlank, List.all_eq_true]

theorem isAllBlank_append : Text.isAllBlank (s ++ t) ↔ Text.isAllBlank s ∧ Text.isAllBlank t := by
  rw [Text.isAllBlank, List.all_append, Bool.and_eq_true]
  rfl

theorem IsCell.blank_append (h : IsCell p) (hs : Text.isAllBlank s) : IsCell (s ++ p) := by
  obtain ⟨s₁, left, s₂, dashes, s₃, right, s₄, rfl, hblank, h⟩ := h
  refine ⟨s ++ s₁, left, s₂, dashes, s₃, right, s₄, by simp, ?_, h⟩
  rw [List.forall_mem_cons] at hblank ⊢
  exact ⟨isAllBlank_append.mpr ⟨hs, hblank.1⟩, hblank.2⟩

theorem IsCell.append_blank (h : IsCell p) (hs : Text.isAllBlank s) : IsCell (p ++ s) := by
  obtain ⟨s₁, left, s₂, dashes, s₃, right, s₄, rfl, hblank, h⟩ := h
  refine ⟨s₁, left, s₂, dashes, s₃, right, s₄ ++ s, by simp, ?_, h⟩
  simp only [List.forall_mem_cons] at hblank ⊢
  obtain ⟨h₁, h₂, h₃, h₄, hnil⟩ := hblank
  exact ⟨h₁, h₂, h₃, isAllBlank_append.mpr ⟨h₄, hs⟩, hnil⟩

theorem bar_not_mem_of_blank (hs : Text.isAllBlank s) : '|' ∉ s :=
  not_mem_of_class (isAllBlank_iff.mp hs) (by decide)

theorem IsCell.bar_not_mem (h : IsCell p) : '|' ∉ p := by
  obtain ⟨s₁, left, s₂, dashes, s₃, right, s₄, rfl, hblank, hleft, hright, -, hdashes⟩ := h
  have hcolon : ∀ {t}, IsOptColon t → '|' ∉ t := by
    rintro t (rfl | rfl) <;> decide
  have hdash : '|' ∉ dashes := fun hmem ↦ absurd (hdashes _ hmem) (by decide)
  have hmargin := fun s hs ↦ bar_not_mem_of_blank (hblank s hs)
  simp [hcolon hleft, hcolon hright, hdash, hmargin]

def cellPattern : Pattern :=
  .blanks ++ .opt (.char ':') ++ .blanks ++ .many1 (.char '-') ++ .blanks ++ .opt (.char ':') ++
    .blanks

theorem takes_cellPattern : cellPattern.Takes b u r gs ↔ IsCell u ∧ gs = [] := by
  have hcolon : ∀ b u r gs, (opt (char ':')).Takes b u r gs ↔ IsOptColon u ∧ gs = [] := by
    intro b u r gs
    rw [takes_opt, takes_char, ← or_and_right, IsOptColon]
  have hdashes : ∀ b u r gs, (many1 (char '-')).Takes b u r gs ↔
      (u ≠ [] ∧ ∀ c ∈ u, c = '-') ∧ gs = [] := by
    intro b u r gs
    simp only [char, takes_many1_one, beq_iff_eq, and_assoc]
  simp only [cellPattern, takes_append_blanks, takes_append_of hcolon, takes_append_of hdashes,
    takes_blanks, ← isAllBlank_iff]
  constructor
  · rintro ⟨_, s₄, rfl, h₄, _, right, rfl, hright, _, s₃, rfl, h₃, _, dashes, rfl, hdash,
      _, s₂, rfl, h₂, s₁, left, rfl, hleft, h₁, rfl⟩
    exact ⟨⟨s₁, left, s₂, dashes, s₃, right, s₄, rfl, by simp [h₁, h₂, h₃, h₄], hleft, hright,
      hdash⟩, rfl⟩
  · rintro ⟨⟨s₁, left, s₂, dashes, s₃, right, s₄, rfl, hblank, hleft, hright, hdash⟩, rfl⟩
    simp only [List.forall_mem_cons] at hblank
    obtain ⟨h₁, h₂, h₃, h₄, -⟩ := hblank
    exact ⟨_, s₄, rfl, h₄, _, right, rfl, hright, _, s₃, rfl, h₃, _, dashes, rfl, hdash,
      _, s₂, rfl, h₂, s₁, left, rfl, hleft, h₁, rfl⟩

theorem barred_append_last (cells : List Text) (last : Text) :
    ['|'].intercalate (cells ++ [last]) = barred cells ++ last := by
  induction cells with
  | nil => simp [barred, List.intercalate_singleton]
  | cons p cells ih =>
    rw [List.cons_append, List.intercalate_cons_of_ne_nil (by simp), ih]
    simp [barred]

theorem eq_barred (h : line.splitOn '|' = cells ++ [last]) : line = barred cells ++ last := by
  rw [← barred_append_last, ← h, List.intercalate_splitOn]

theorem splitOn_barred (hcells : ∀ p ∈ cells, IsCell p ∨ Text.isAllBlank p)
    (hlast : IsCell last ∨ Text.isAllBlank last) :
    (barred cells ++ last).splitOn '|' = cells ++ [last] := by
  have hbar : ∀ p ∈ cells ++ [last], '|' ∉ p := by
    intro p hp
    have hpiece : IsCell p ∨ Text.isAllBlank p := by
      rcases List.mem_append.mp hp with hp | hp
      · exact hcells p hp
      · rwa [List.mem_singleton.mp hp]
    exact hpiece.elim IsCell.bar_not_mem bar_not_mem_of_blank
  rw [← barred_append_last, List.splitOn_intercalate '|' hbar (by simp)]

theorem takes_barred : (many (cellPattern ++ char '|')).Takes b u r gs ↔
    (∃ cells, u = barred cells ∧ ∀ p ∈ cells, IsCell p) ∧ gs = [] := by
  have hcell : ∀ b u r gs, (cellPattern ++ char '|').Takes b u r gs ↔
      (∃ p, u = p ++ ['|'] ∧ IsCell p) ∧ gs = [] := by
    intro b u r gs
    simp only [char, takes_append_one, takes_cellPattern, beq_iff_eq, existsAndEq, and_true,
      ← and_assoc, exists_and_right]
  rw [many, takes_star_of hcell]
  refine and_congr_left fun _ ↦ ⟨?_, ?_⟩
  · rintro ⟨us, rfl, hus⟩
    induction us with
    | nil => exact ⟨[], rfl, by simp⟩
    | cons v us ih =>
      rw [List.forall_mem_cons] at hus
      obtain ⟨⟨p, rfl, hp⟩, hus⟩ := hus
      obtain ⟨cells, hflat, hcells⟩ := ih hus
      exact ⟨p :: cells, by simp [barred, hflat], List.forall_mem_cons.mpr ⟨hp, hcells⟩⟩
  · rintro ⟨cells, rfl, hcells⟩
    refine ⟨cells.map (· ++ ['|']), by simp [barred, List.flatMap_def], ?_⟩
    simpa using hcells

theorem takes_cells : (many1 (cellPattern ++ char '|')).Takes b u r gs ↔
    (∃ first cells, u = barred (first :: cells) ∧ ∀ p ∈ first :: cells, IsCell p) ∧ gs = [] := by
  rw [many1, takes_append_of (fun _ _ _ _ ↦ takes_barred)]
  simp only [char, takes_append_one, takes_cellPattern, beq_iff_eq]
  constructor
  · rintro ⟨_, _, rfl, ⟨cells, rfl, hcells⟩, first, _, rfl, rfl, hfirst, rfl⟩
    exact ⟨⟨first, cells, rfl, List.forall_mem_cons.mpr ⟨hfirst, hcells⟩⟩, rfl⟩
  · rintro ⟨⟨first, cells, rfl, hcells⟩, rfl⟩
    obtain ⟨hfirst, hcells⟩ := List.forall_mem_cons.mp hcells
    exact ⟨_, _, rfl, ⟨cells, rfl, hcells⟩, first, _, rfl, rfl, hfirst, rfl⟩

/-- What a row begins with, what its cells are and what may follow the last bar. -/
theorem isMatch_separator : tableSeparatorPattern.isMatch line ↔ ∃ s bar first cells last,
    line = s ++ bar ++ barred (first :: cells) ++ last ∧ Text.isAllBlank s ∧
    (bar = ['|'] ∨ bar = []) ∧ (∀ p ∈ first :: cells, IsCell p) ∧
    (IsCell last ∨ Text.isAllBlank last) := by
  have hbar : ∀ b u r gs, (opt (char '|')).Takes b u r gs ↔ (u = ['|'] ∨ u = []) ∧ gs = [] := by
    intro b u r gs
    rw [takes_opt, takes_char, ← or_and_right]
  have hlast : ∀ b u r gs, (opt cellPattern).Takes b u r gs ↔ (IsCell u ∨ u = []) ∧ gs = [] := by
    intro b u r gs
    rw [takes_opt, takes_cellPattern, ← or_and_right]
  have hpattern : tableSeparatorPattern = textStart ++ blanks ++ opt (char '|') ++
    many1 (cellPattern ++ char '|') ++ opt cellPattern ++ blanks ++ lastLineEnd := rfl
  rw [isMatch_iff (by decide), hpattern]
  simp only [takes_append_lastLineEnd, takes_append_blanks, takes_append_of hlast,
    takes_append_of (fun _ _ _ _ ↦ takes_cells), takes_append_of hbar, ← isAllBlank_iff, textStart,
    takes_place]
  constructor
  · rintro ⟨_, r, gs, rfl, hr, _, s', rfl, hs', _, last, rfl, hlast, _, _, rfl,
      ⟨first, cells, rfl, hcells⟩, _, bar, rfl, hbar, _, s, rfl, hs, rfl, -⟩
    have hend : Text.isAllBlank (s' ++ r) := by
      rcases hr with rfl | rfl
      · rwa [List.append_nil]
      · exact isAllBlank_append.mpr ⟨hs', by decide⟩
    refine ⟨s, bar, first, cells, last ++ (s' ++ r), by simp, hs, hbar, hcells, ?_⟩
    rcases hlast with hlast | rfl
    · exact .inl (hlast.append_blank hend)
    · exact .inr hend
  · rintro ⟨s, bar, first, cells, last, rfl, hs, hbar, hcells, hlast⟩
    obtain ⟨v, w, rfl, hv, hw⟩ :
        ∃ v w, last = v ++ w ∧ (IsCell v ∨ v = []) ∧ Text.isAllBlank w := by
      rcases hlast with hlast | hlast
      · exact ⟨last, [], by simp, .inl hlast, rfl⟩
      · exact ⟨[], last, rfl, .inr rfl, hlast⟩
    exact ⟨_, [], [], by simp, .inl rfl, _, w, rfl, hw, _, v, rfl, hv, _, _, rfl,
      ⟨first, cells, rfl, hcells⟩, _, bar, rfl, hbar, [], s, rfl, hs, rfl, rfl, rfl⟩

/-- A line is a separator row just when it has a bar, its last piece is a cell or blank, and the
pieces before are cells, where a blank piece may stand in front of them. -/
theorem isTableSeparator_iff (line : Text) : isTableSeparator line ↔
    ∃ pieces last, line.splitOn '|' = pieces ++ [last] ∧ 1 ≤ pieces.length ∧
      (IsCell last ∨ Text.isAllBlank last) ∧
      ((∀ p ∈ pieces, IsCell p) ∨
        2 ≤ pieces.length ∧ ∃ first cells, pieces = first :: cells ∧ Text.isAllBlank first ∧
          ∀ p ∈ cells, IsCell p) := by
  rw [isTableSeparator, Bool.and_eq_true, isMatch_separator]
  constructor
  · rintro ⟨-, s, bar, first, cells, last, rfl, hs, rfl | rfl, hcells, hlast⟩
    · have hline : s ++ ['|'] ++ barred (first :: cells) ++ last =
          barred (s :: first :: cells) ++ last := by simp [barred]
      rw [hline, splitOn_barred (List.forall_mem_cons.mpr ⟨.inr hs, fun p hp ↦ .inl (hcells p hp)⟩)
        hlast]
      exact ⟨s :: first :: cells, last, rfl, by simp, hlast,
        .inr ⟨by simp, s, first :: cells, rfl, hs, hcells⟩⟩
    · have hline : s ++ [] ++ barred (first :: cells) ++ last =
          barred ((s ++ first) :: cells) ++ last := by simp [barred]
      have hcells' : ∀ p ∈ (s ++ first) :: cells, IsCell p := by
        rw [List.forall_mem_cons] at hcells ⊢
        exact ⟨hcells.1.blank_append hs, hcells.2⟩
      rw [hline, splitOn_barred (fun p hp ↦ .inl (hcells' p hp)) hlast]
      exact ⟨(s ++ first) :: cells, last, rfl, by simp, hlast, .inl hcells'⟩
  · rintro ⟨pieces, last, hsplit, hlen, hlast, hcells⟩
    obtain rfl := eq_barred hsplit
    rcases hcells with hcells | ⟨hlen', first, cells, rfl, hfirst, hcells⟩
    · obtain ⟨first, cells, rfl⟩ := List.exists_cons_of_length_pos hlen
      exact ⟨by simp [barred], [], [], first, cells, last, rfl, rfl, .inr rfl, hcells, hlast⟩
    · obtain ⟨second, cells, rfl⟩ := List.exists_cons_of_length_pos (Nat.lt_of_succ_lt_succ hlen')
      exact ⟨by simp [barred], first, ['|'], second, cells, last, by simp [barred], hfirst,
        .inl rfl, hcells, hlast⟩

end DiagramRepair
