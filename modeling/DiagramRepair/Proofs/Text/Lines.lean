import DiagramRepair.Proofs.Text.Classes
import DiagramRepair.Proofs.Text.Spans
import DiagramRepair.Text.Basic

namespace DiagramRepair.Text

variable {s t l : Text} {ls : List Text} {c : Char}

theorem length_splitOn (c : Char) (t : Text) : (t.splitOn c).length = t.count c + 1 := by
  induction t with
  | nil => rfl
  | cons d t ih =>
    rw [List.splitOn_cons_eq_if_modifyHead]
    split
    · rename_i h
      simp [beq_iff_eq.mp h, ih]
    · rename_i h
      simp [ih, List.count_cons, h]

theorem intercalate_append {sep : Text} {ls' : List Text} (h : ls ≠ []) (h' : ls' ≠ []) :
    sep.intercalate (ls ++ ls') = sep.intercalate ls ++ (sep ++ sep.intercalate ls') := by
  induction ls with
  | nil => exact absurd rfl h
  | cons l ls ih =>
    by_cases hnil : ls = []
    · simp [hnil, List.intercalate_cons_of_ne_nil h', List.intercalate_singleton]
    · rw [List.cons_append, List.intercalate_cons_of_ne_nil (by simp [h']), ih hnil,
        List.intercalate_cons_of_ne_nil hnil]
      simp

theorem infix_intercalate {sep : Text} (h : l ∈ ls) : l <:+: sep.intercalate ls := by
  induction ls with
  | nil => simp at h
  | cons l' ls ih =>
    by_cases hnil : ls = []
    · rw [hnil, List.mem_singleton] at h
      have hjoin : sep.intercalate (l' :: ls) = l := by rw [hnil, List.intercalate_singleton, h]
      exact hjoin ▸ List.infix_rfl
    · rw [List.intercalate_cons_of_ne_nil hnil]
      rcases List.mem_cons.mp h with rfl | h
      · rw [List.append_assoc]
        exact (List.prefix_append _ _).isInfix
      · exact (ih h).trans (List.suffix_append _ _).isInfix

theorem not_mem_intercalate {sep : Text} (hc : c ∉ sep) (h : ∀ l ∈ ls, c ∉ l) :
    c ∉ sep.intercalate ls := by
  induction ls with
  | nil => simp
  | cons l ls ih =>
    rw [List.forall_mem_cons] at h
    by_cases hls : ls = []
    · rw [hls, List.intercalate_singleton]
      exact h.1
    · rw [List.intercalate_cons_of_ne_nil hls, List.mem_append, List.mem_append, not_or, not_or]
      exact ⟨⟨h.1, hc⟩, ih h.2⟩

theorem infix_of_mem_splitOn (h : l ∈ t.splitOn c) : l <:+: t := by
  have hjoin : [c].intercalate (t.splitOn c) = t := List.intercalate_splitOn c
  exact hjoin ▸ infix_intercalate h

theorem unlines_lines (t : Text) : unlines (lines t) = t := List.intercalate_splitOn '\n'

theorem lines_ne_nil (t : Text) : lines t ≠ [] := List.splitOn_ne_nil '\n' t

theorem lines_of_not_mem (h : '\n' ∉ t) : lines t = [t] := List.splitOn_eq_singleton h

theorem lines_append_newline (s t : Text) : lines (s ++ '\n' :: t) = lines s ++ lines t :=
  List.splitOn_append_cons_self s t

theorem unlines_singleton (l : Text) : unlines [l] = l := List.intercalate_singleton

theorem unlines_cons (h : ls ≠ []) : unlines (l :: ls) = l ++ '\n' :: unlines ls := by
  simp [unlines, List.intercalate_cons_of_ne_nil h]

theorem unlines_append {ls' : List Text} (h : ls ≠ []) (h' : ls' ≠ []) :
    unlines (ls ++ ls') = unlines ls ++ '\n' :: unlines ls' := intercalate_append h h'

theorem lines_unlines_flatMap (h : ls ≠ []) : lines (unlines ls) = ls.flatMap lines := by
  induction ls with
  | nil => exact absurd rfl h
  | cons l ls ih =>
    cases ls with
    | nil => simp [unlines_singleton]
    | cons l' ls =>
      have hne : l' :: ls ≠ [] := by simp
      rw [unlines_cons hne, lines_append_newline, ih hne, List.flatMap_cons (x := l)]

theorem lines_unlines (h : ls ≠ []) (hls : ∀ l ∈ ls, '\n' ∉ l) : lines (unlines ls) = ls :=
  List.splitOn_intercalate '\n' hls h

/-- Every text is a single line, or a first line with a line feed and further text after it. -/
theorem lines_cases (t : Text) :
    ('\n' ∉ t ∧ lines t = [t]) ∨
      ∃ l t', t = l ++ '\n' :: t' ∧ '\n' ∉ l ∧ lines t = l :: lines t' := by
  by_cases h : '\n' ∈ t
  · obtain ⟨l, t', rfl, hl⟩ := List.eq_append_cons_of_mem h
    exact .inr ⟨l, t', rfl, hl, by rw [lines_append_newline, lines_of_not_mem hl]; rfl⟩
  · exact .inl ⟨h, lines_of_not_mem h⟩

/-- Induction on the lines of a text. -/
@[elab_as_elim]
theorem lines_induction {P : Text → Prop} (single : ∀ t, '\n' ∉ t → P t)
    (cons : ∀ l t, '\n' ∉ l → P t → P (l ++ '\n' :: t)) (t : Text) : P t := by
  induction hn : t.length using Nat.strongRecOn generalizing t with
  | _ n ih =>
    rcases lines_cases t with ⟨ht, -⟩ | ⟨l, t', rfl, hl, -⟩
    · exact single t ht
    · exact cons l t' hl (ih t'.length (by simp [← hn]; omega) t' rfl)

theorem lines_cons_newline (hl : '\n' ∉ l) (t : Text) : lines (l ++ '\n' :: t) = l :: lines t := by
  rw [lines_append_newline, lines_of_not_mem hl, List.singleton_append]

theorem lines_append_of_not_mem (hs : '\n' ∉ s) (ht : lines t = l :: ls) :
    lines (s ++ t) = (s ++ l) :: ls := by
  rcases lines_cases t with ⟨hnewline, he⟩ | ⟨l', t', rfl, hl', he⟩
  · obtain ⟨rfl, rfl⟩ := List.cons.inj (ht.symm.trans he)
    exact lines_of_not_mem (by simp [hs, hnewline])
  · obtain ⟨rfl, rfl⟩ := List.cons.inj (ht.symm.trans he)
    rw [← List.append_assoc, lines_cons_newline (by simp [hs, hl'])]

theorem not_mem_of_mem_splitOn (h : l ∈ t.splitOn c) : c ∉ l := by
  rw [List.splitOn] at h
  induction t generalizing l with
  | nil => simp_all
  | cons c' t ih =>
    rw [List.splitOnP_cons_eq_if_modifyHead] at h
    split at h
    · rcases List.mem_cons.mp h with rfl | h
      · simp
      · exact ih h
    · rename_i hc
      obtain ⟨l', ls, hls⟩ := List.exists_cons_of_ne_nil (List.splitOnP_ne_nil (· == c) t)
      rw [hls, List.modifyHead_cons, List.mem_cons] at h
      rcases h with rfl | h
      · have hl' : c ∉ l' := ih (by simp [hls])
        rw [List.mem_cons, not_or]
        refine ⟨?_, hl'⟩
        rintro rfl
        exact hc (beq_self_eq_true c)
      · exact ih (by simp [hls, h])

theorem newline_not_mem_of_mem_lines (h : l ∈ lines t) : '\n' ∉ l := not_mem_of_mem_splitOn h

theorem mem_of_mem_lines (hc : c ∈ l) (h : l ∈ lines t) : c ∈ t := by
  rw [← unlines_lines t]
  generalize lines t = ls at h
  induction ls with
  | nil => simp at h
  | cons l' ls ih =>
    by_cases hls : ls = []
    · simp_all [unlines_singleton]
    · rw [unlines_cons hls]
      rcases List.mem_cons.mp h with rfl | h
      · simp [hc]
      · simp [ih h]

theorem not_mem_unlines (hc : c ≠ '\n') (h : ∀ l ∈ ls, c ∉ l) : c ∉ unlines ls :=
  not_mem_intercalate (by simpa using hc) h

theorem length_lines (t : Text) : (lines t).length = t.count '\n' + 1 := length_splitOn '\n' t

theorem lines_mapLines (f : Text → Text) (t : Text) :
    lines (mapLines f t) = (lines t).flatMap fun l ↦ lines (f l) := by
  have h : (lines t).map f ≠ [] := by simp [lines_ne_nil]
  rw [mapLines, lines_unlines_flatMap h, List.flatMap_map]

theorem sublist_of_mem_lines (h : l ∈ lines t) : l.Sublist t := by
  induction t using lines_induction with
  | single t ht =>
    rw [lines_of_not_mem ht, List.mem_singleton] at h
    exact h ▸ .refl t
  | cons l' t hl' ih =>
    rw [lines_cons_newline hl', List.mem_cons] at h
    rcases h with rfl | h
    · exact List.sublist_append_left _ _
    · exact ((ih h).cons '\n').trans (List.sublist_append_right _ _)

theorem lines_newline_cons (t : Text) : lines ('\n' :: t) = [] :: lines t :=
  lines_append_newline [] t

theorem tail_lines_cons (hc : c ≠ '\n') (t : Text) : (lines (c :: t)).tail = (lines t).tail := by
  rcases lines_cases t with ⟨ht, he⟩ | ⟨l, t', rfl, hl, he⟩
  · rw [he, lines_of_not_mem (by simp [hc.symm, ht])]
    rfl
  · rw [he, ← List.cons_append, lines_append_newline, lines_of_not_mem (by simp [hc.symm, hl])]
    rfl

theorem tail_lines_sublist_append (s t : Text) :
    (lines t).tail.Sublist (lines (s ++ t)).tail := by
  induction s with
  | nil => exact .refl _
  | cons c s ih =>
    rw [List.cons_append]
    by_cases hc : c = '\n'
    · rw [hc, lines_newline_cons, List.tail_cons]
      exact ih.trans (List.tail_sublist _)
    · rwa [tail_lines_cons hc]

theorem exists_mem_lines_of_infix {u : Text} (hu : '\n' ∉ u) (h : u <:+: t) :
    ∃ l ∈ lines t, u <:+: l := by
  induction t using lines_induction with
  | single t ht => exact ⟨t, by simp [lines_of_not_mem ht], h⟩
  | cons l t hl ih =>
    rw [lines_cons_newline hl]
    rcases List.infix_append_iff.mp h with h | h | ⟨v, w, rfl, hv, hw⟩
    · exact ⟨l, by simp, h⟩
    · rcases List.infix_cons_iff.mp h with h | h
      · rcases List.prefix_cons_iff.mp h with rfl | ⟨w, rfl, -⟩
        · exact ⟨l, by simp, List.nil_infix⟩
        · simp at hu
      · obtain ⟨l', hl', hpart⟩ := ih h
        exact ⟨l', by simp [hl'], hpart⟩
    · rcases List.prefix_cons_iff.mp hw with rfl | ⟨w, rfl, -⟩
      · exact ⟨l, by simp, by simpa using hv.isInfix⟩
      · simp at hu

/-- A text without line feed that the whole begins with is the start of the first line. -/
theorem exists_mem_lines_of_prefix {u : Text} (hu : '\n' ∉ u) (t : Text) :
    ∃ v, u ++ v ∈ lines (u ++ t) := by
  rcases lines_cases (u ++ t) with ⟨-, he⟩ | ⟨l, t', hl, -, he⟩
  · exact ⟨t, by simp [he]⟩
  · obtain ⟨v, rfl, -⟩ := exists_of_not_mem_left hu hl
    exact ⟨v, by simp [he]⟩

/-- A line that does not hold what was put in is a line of the text with anything else put there. -/
theorem mem_lines_of_not_mem {p u v r : Text} (hv : '\n' ∉ v) (hc : c ∈ v) (hl : c ∉ l)
    (h : l ∈ lines (p ++ (v ++ r))) : l ∈ lines (p ++ (u ++ r)) := by
  induction p using lines_induction with
  | single p hp =>
    rcases lines_cases r with ⟨hr, -⟩ | ⟨l', r, rfl, hl', -⟩
    · rw [lines_of_not_mem (by simp [hp, hv, hr]), List.mem_singleton] at h
      exact absurd (by simp [h, hc]) hl
    · have hline : lines (p ++ (v ++ (l' ++ '\n' :: r))) = (p ++ (v ++ l')) :: lines r := by
        simpa using lines_cons_newline (l := p ++ (v ++ l')) (by simp [hp, hv, hl']) r
      rw [hline, List.mem_cons] at h
      rcases h with rfl | h
      · exact absurd (by simp [hc]) hl
      · have hjoin : p ++ (u ++ (l' ++ '\n' :: r)) = p ++ (u ++ l') ++ '\n' :: r := by simp
        rw [hjoin, lines_append_newline]
        exact List.mem_append_right _ h
  | cons l' p hl' ih =>
    rw [List.append_assoc, List.cons_append, lines_cons_newline hl', List.mem_cons] at h ⊢
    exact h.imp_right ih

theorem exists_trimStart (t : Text) : ∃ s, t = s ++ trimStart t ∧ ∀ c ∈ s, isBlank c :=
  ⟨t.takeWhile isBlank, by rw [trimStart, List.takeWhile_append_dropWhile],
    fun c h ↦ List.all_eq_true.mp List.all_takeWhile c h⟩

theorem exists_trimEnd (t : Text) : ∃ s, t = trimEnd t ++ s ∧ ∀ c ∈ s, isBlank c := by
  obtain ⟨s, hs, hblank⟩ := exists_trimStart t.reverse
  refine ⟨s.reverse, ?_, fun c h ↦ hblank c (by simpa using h)⟩
  have h := congrArg List.reverse hs
  simpa [trimStart, trimEnd] using h

theorem exists_trim (t : Text) :
    ∃ s s', t = s ++ (trim t ++ s') ∧ (∀ c ∈ s, isBlank c) ∧ ∀ c ∈ s', isBlank c := by
  obtain ⟨s, hs, hblank⟩ := exists_trimStart t
  obtain ⟨s', hs', hblank'⟩ := exists_trimEnd (trimStart t)
  exact ⟨s, s', by rw [trim, ← hs', ← hs], hblank, hblank'⟩

theorem trimEnd_subset (t : Text) : trimEnd t ⊆ t := by
  obtain ⟨s, ht, -⟩ := exists_trimEnd t
  intro c hc
  rw [ht]
  exact List.mem_append_left s hc

theorem trim_infix_self (t : Text) : trim t <:+: t := by
  obtain ⟨s, s', ht, -⟩ := exists_trim t
  exact ⟨s, s', by rw [List.append_assoc, ← ht]⟩

theorem trim_subset (t : Text) : trim t ⊆ t := (trim_infix_self t).subset

theorem trimStart_append (hs : ∀ c ∈ s, isBlank c) (ht : ∀ c ∈ t.head?, isBlank c = false) :
    trimStart (s ++ t) = t := by
  rw [trimStart, List.dropWhile_append_of_pos hs]
  cases t with
  | nil => rfl
  | cons c t => simp [ht c rfl]

theorem trimEnd_append (hs : ∀ c ∈ s.getLast?, isBlank c = false) :
    trimEnd (s ++ t) = s ++ trimEnd t := by
  have hself : s.reverse.dropWhile isBlank = s.reverse := by
    have hstart : ∀ c ∈ s.reverse.head?, isBlank c = false := by simpa using hs
    simpa [trimStart] using trimStart_append (s := []) (by simp) hstart
  rw [trimEnd, trimEnd, List.reverse_append, List.dropWhile_append, hself]
  split
  · rename_i h
    simp [List.isEmpty_iff.mp h]
  · simp

theorem trimEnd_append_blank (hs : ∀ c ∈ s, isBlank c) : trimEnd (t ++ s) = trimEnd t := by
  rw [trimEnd, List.reverse_append, List.dropWhile_append_of_pos (by simpa using hs), trimEnd]

theorem trimEnd_of_blank (hs : ∀ c ∈ s, isBlank c) : trimEnd s = [] :=
  trimEnd_append_blank (t := []) hs

/-- Between blanks a text without blank margins is what remains. -/
theorem trim_append {s' : Text} (hs : ∀ c ∈ s, isBlank c) (hs' : ∀ c ∈ s', isBlank c)
    (hfirst : ∀ c ∈ t.head?, isBlank c = false) (hlast : ∀ c ∈ t.getLast?, isBlank c = false) :
    trim (s ++ (t ++ s')) = t := by
  cases t with
  | nil =>
    have hblank : ∀ c ∈ s ++ s', isBlank c := by simpa [or_imp, forall_and] using ⟨hs, hs'⟩
    have hstart : trimStart (s ++ s' ++ []) = [] := trimStart_append hblank (by simp)
    rw [List.append_nil] at hstart
    rw [trim, List.nil_append, hstart]
    rfl
  | cons c t =>
    have hstart : trimStart (s ++ (c :: t ++ s')) = c :: t ++ s' :=
      trimStart_append hs (by simpa using hfirst)
    rw [trim, hstart, trimEnd_append hlast, trimEnd_of_blank hs', List.append_nil]

theorem trim_eq_self (hfirst : ∀ c ∈ t.head?, isBlank c = false)
    (hlast : ∀ c ∈ t.getLast?, isBlank c = false) : trim t = t := by
  have hnil : ∀ c ∈ ([] : Text), isBlank c := by simp
  simpa using trim_append hnil hnil hfirst hlast

theorem exists_margins (t : Text) : ∃ s u s', t = s ++ (u ++ s') ∧ (∀ c ∈ s, isBlank c) ∧
    (∀ c ∈ s', isBlank c) ∧ (∀ c ∈ u.head?, isBlank c = false) ∧
    ∀ c ∈ u.getLast?, isBlank c = false := by
  obtain ⟨s, r, rfl, hs, hr⟩ := exists_run isBlank t
  obtain ⟨s', u, hreverse, hs', hu⟩ := exists_run isBlank r.reverse
  obtain rfl : r = u.reverse ++ s'.reverse := by
    rw [← List.reverse_append, ← hreverse, List.reverse_reverse]
  refine ⟨s, u.reverse, s'.reverse, rfl, hs, by simpa using hs', fun c hc ↦ hr c ?_,
    by simpa using hu⟩
  rw [Option.mem_def] at hc ⊢
  rw [List.head?_append, hc]
  rfl

theorem trim_trim (t : Text) : trim (trim t) = trim t := by
  obtain ⟨s, u, s', rfl, hs, hs', hfirst, hlast⟩ := exists_margins t
  rw [trim_append hs hs' hfirst hlast, trim_eq_self hfirst hlast]

theorem trim_append_cons (hc : isBlank c = false) (s t : Text) :
    trim (s ++ c :: t) = trimStart s ++ c :: trimEnd t := by
  have hstart : trimStart (s ++ c :: t) = trimStart s ++ [c] ++ t := by
    rw [trimStart, List.dropWhile_append]
    split
    · rename_i hs
      rw [trimStart, List.isEmpty_iff.mp hs, List.dropWhile_cons_of_neg (by simp [hc])]
      rfl
    · simp [trimStart]
  rw [trim, hstart, trimEnd_append (by simpa using hc)]
  simp

/-- Further blanks at the margins are trimmed with the others. -/
theorem trim_append_blanks {s' : Text} (hs : ∀ c ∈ s, isBlank c) (hs' : ∀ c ∈ s', isBlank c) :
    trim (s ++ (t ++ s')) = trim t := by
  obtain ⟨v, u, v', rfl, hv, hv', hfirst, hlast⟩ := exists_margins t
  have hmore : s ++ (v ++ (u ++ v') ++ s') = s ++ v ++ (u ++ (v' ++ s')) := by simp
  rw [hmore, trim_append hv hv' hfirst hlast, trim_append _ _ hfirst hlast]
  · simpa [or_imp, forall_and] using ⟨hs, hv⟩
  · simpa [or_imp, forall_and] using ⟨hv', hs'⟩

theorem includes_iff {needle : Text} : includes needle t ↔ needle <:+: t := by
  induction t with
  | nil => simp [includes]
  | cons c t ih => simp [includes, ih, List.infix_cons_iff]

def BackslashAtEnd (t : Text) : Prop := ∀ s v, t = s ++ '\\' :: v → v = []

theorem backslashAtEnd_iff : BackslashAtEnd t ↔ ∀ c, ¬ ['\\', c].Sublist t := by
  constructor
  · intro h c hc
    obtain ⟨r, r', rfl, hmem, hc⟩ := List.cons_sublist_iff.mp hc
    obtain ⟨s, v, rfl⟩ := List.append_of_mem hmem
    have hnil := h s (v ++ r') (by simp)
    simp_all
  · rintro h s v rfl
    cases v with
    | nil => rfl
    | cons c v =>
      have hc : ['\\', c].Sublist (s ++ '\\' :: c :: v) := by simp
      exact absurd hc (h c)

theorem BackslashAtEnd.sublist (h : BackslashAtEnd t) (hs : s.Sublist t) : BackslashAtEnd s := by
  rw [backslashAtEnd_iff] at h ⊢
  exact fun c hc ↦ h c (hc.trans hs)

theorem BackslashAtEnd.map {f : Char → Char} (h : BackslashAtEnd t)
    (hf : ∀ c, f c = '\\' → c = '\\') : BackslashAtEnd (t.map f) := by
  intro s v ht
  obtain ⟨s', v', rfl, rfl, hv⟩ := List.map_eq_append_iff.mp ht
  obtain ⟨d, v'', rfl, hd, rfl⟩ := List.map_eq_cons_iff.mp hv
  obtain rfl := hf d hd
  rw [h s' v'' rfl, List.map_nil]

end DiagramRepair.Text
