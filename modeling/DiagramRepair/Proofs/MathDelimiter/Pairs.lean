import DiagramRepair.MathDelimiter
import DiagramRepair.Proofs.Pattern.First
import DiagramRepair.Proofs.Rule.Words
import DiagramRepair.Proofs.Text.Lines

namespace DiagramRepair.MathDelimiter

open Pattern

variable {c : Char} {s t x : Text}

theorem toDollars_cons (hopen : ∀ t', c :: t ≠ '\\' :: '(' :: t')
    (hclose : ∀ t', c :: t ≠ '\\' :: ')' :: t') : toDollars (c :: t) = c :: toDollars t := by
  rw [toDollars]
  · rintro t' rfl rfl
    exact hopen t' rfl
  · rintro t' rfl rfl
    exact hclose t' rfl

theorem toDollars_append_of_not_mem (hs : '\\' ∉ s) : toDollars (s ++ t) = s ++ toDollars t := by
  induction s with
  | nil => rfl
  | cons c s ih =>
    rw [List.mem_cons, not_or] at hs
    rw [List.cons_append, toDollars_cons (by simp [Ne.symm hs.1]) (by simp [Ne.symm hs.1]), ih hs.2,
      List.cons_append]

theorem exists_of_append_dollar {x : Text} (hc : c ≠ '$') (h : s ++ '$' :: t = c :: x) :
    ∃ s', s = c :: s' := by
  cases s with
  | nil => exact absurd (List.cons.inj h).1.symm hc
  | cons d s => exact ⟨s, by rw [(List.cons.inj h).1]⟩

theorem toDollars_append_dollar (s t : Text) :
    toDollars (s ++ '$' :: t) = toDollars s ++ '$' :: toDollars t := by
  fun_induction toDollars s with
  | case1 s ih => simp [toDollars, ih]
  | case2 s ih => simp [toDollars, ih]
  | case3 c s hopen hclose ih =>
    rw [List.cons_append, toDollars_cons, ih, List.cons_append]
    · intro t' h
      obtain ⟨rfl, htail⟩ := List.cons.inj h
      obtain ⟨s', rfl⟩ := exists_of_append_dollar (by decide) htail
      exact hopen s' rfl rfl
    · intro t' h
      obtain ⟨rfl, htail⟩ := List.cons.inj h
      obtain ⟨s', rfl⟩ := exists_of_append_dollar (by decide) htail
      exact hclose s' rfl rfl
  | case4 => exact toDollars_cons (by simp) (by simp)

def trimPiece (count i : Nat) (p : Text) : Text :=
  if i % 2 = 1 ∧ i + 1 < count then Text.trim p else p

def trimDollars (t : Text) : Text :=
  let pieces := t.splitOn '$'
  ['$'].intercalate (pieces.mapIdx (trimPiece pieces.length))

theorem trimDollars_of_not_mem (ht : '$' ∉ t) : trimDollars t = t := by
  simp [trimDollars, List.splitOn_eq_singleton ht, trimPiece, List.intercalate_singleton]

theorem splitOn_dollar (t : Text) : ('$' :: t).splitOn '$' = [] :: t.splitOn '$' :=
  List.splitOn_append_cons_self_of_not_mem List.not_mem_nil t

theorem trimDollars_single (ht : '$' ∉ t) : trimDollars ('$' :: t) = '$' :: t := by
  simp [trimDollars, splitOn_dollar, List.splitOn_eq_singleton ht, trimPiece,
    List.intercalate_cons_cons, List.intercalate_singleton]

theorem trimDollars_cons (hc : c ≠ '$') : trimDollars (c :: t) = c :: trimDollars t := by
  obtain ⟨p, ps, hps⟩ := List.exists_cons_of_ne_nil (List.splitOn_ne_nil '$' t)
  simp only [trimDollars, List.splitOn_cons_eq_if_modifyHead, beq_iff_eq, hc, if_false, hps,
    List.modifyHead_cons, List.mapIdx_cons, List.length_cons]
  exact List.intercalate_cons_cons_left

theorem trimPiece_add_two (count i : Nat) (p : Text) :
    trimPiece (count + 2) (i + 2) p = trimPiece count i p := by
  have hiff : (i + 2) % 2 = 1 ∧ i + 2 + 1 < count + 2 ↔ i % 2 = 1 ∧ i + 1 < count := by omega
  simp only [trimPiece, hiff]

theorem trimDollars_pair (hx : '$' ∉ x) :
    trimDollars ('$' :: (x ++ '$' :: t)) = '$' :: (Text.trim x ++ '$' :: trimDollars t) := by
  have hne := List.splitOn_ne_nil '$' t
  have hpos := List.length_pos_iff.mpr hne
  simp only [trimDollars, splitOn_dollar, List.splitOn_append_cons_self_of_not_mem hx,
    List.mapIdx_cons, List.length_cons]
  generalize t.splitOn '$' = ps at hne hpos ⊢
  have hinside : trimPiece (ps.length + 1 + 1) (0 + 1) x = Text.trim x := if_pos (by omega)
  have hshift : (fun i ↦ trimPiece (ps.length + 1 + 1) (i + 1 + 1)) = trimPiece ps.length := by
    funext i p
    exact trimPiece_add_two _ i p
  rw [hinside, hshift, List.intercalate_cons_cons, List.intercalate_cons_of_ne_nil (by simpa)]
  simp [trimPiece]

theorem takes_inlinePattern {b u r : Text} {gs : Groups} : inlinePattern.Takes b u r gs ↔
    ∃ s x s', u = '$' :: (s ++ (x ++ (s' ++ ['$']))) ∧ (∀ c ∈ s, Text.isBlank c) ∧ '$' ∉ x ∧
      (∀ c ∈ s', Text.isBlank c) ∧ gs = [("body", x)] := by
  simp only [inlinePattern, manyLazy, takes_append_sign, takes_append_blanks, takes_append_group,
    takes_star_noneOf, takes_sign, existsAndEq, and_true, true_and, List.append_assoc, and_assoc]
  constructor
  · rintro ⟨s', x, s, rfl, hs', rfl, hx, hs⟩
    exact ⟨s, x, s', rfl, hs, hx '$' (by decide), hs', rfl⟩
  · rintro ⟨s, x, s', rfl, hs, hx, hs', rfl⟩
    exact ⟨s', x, s, rfl, hs', rfl, by simpa using hx, hs⟩

/-- Two dollars at the start leave no room for anything between the first and the last. -/
theorem eq_nil_of_startsWith (ht : '$' ∉ t)
    (h : Text.startsWith ('$' :: (t ++ ['$'])) ['$', '$']) : t = [] := by
  cases t with
  | nil => rfl
  | cons c t =>
    have hc : '$' = c := by simpa [Text.startsWith] using h
    exact absurd (List.mem_cons.mpr (.inl hc)) ht

theorem trimInline_eq {m : Match} (hm : m.Of inlinePattern) : ∃ x, '$' ∉ x ∧
    m.whole = '$' :: (x ++ ['$']) ∧ trimInline m = '$' :: (Text.trim x ++ ['$']) := by
  obtain ⟨gs, htakes, hgs⟩ := hm
  obtain ⟨s, x, s', hwhole, hs, hx, hs', rfl⟩ := takes_inlinePattern.mp htakes
  have hbody : m.group "body" = x := by
    rw [Match.group, hgs]
    rfl
  have hdollar : '$' ∉ s ++ (x ++ s') := by
    simp only [List.mem_append, not_or]
    exact ⟨not_mem_of_class hs (by decide), hx, not_mem_of_class hs' (by decide)⟩
  have hjoin : m.whole = '$' :: (s ++ (x ++ s') ++ ['$']) := by simp [hwhole]
  refine ⟨s ++ (x ++ s'), hdollar, hjoin, ?_⟩
  rw [trimInline, hbody, Text.trim_append_blanks hs hs']
  split
  · rename_i hdouble
    rw [Bool.and_eq_true, hjoin] at hdouble
    have hnil := eq_nil_of_startsWith hdollar hdouble.1
    simp only [List.append_eq_nil_iff] at hnil
    obtain ⟨rfl, rfl, rfl⟩ := hnil
    exact hwhole
  · rfl

theorem eq_trimDollars_of_replaces {b t' : Text}
    (h : inlinePattern.Replaces trimInline b t t') : t' = trimDollars t := by
  induction h with
  | nil => rfl
  | @plain b t t' c hfree _ ih =>
    by_cases hc : c = '$'
    · subst hc
      have ht : '$' ∉ t := by
        intro hmem
        obtain ⟨x, r, rfl, hx⟩ := List.eq_append_cons_of_mem hmem
        refine hfree ('$' :: (x ++ ['$'])) r [("body", x)] (by simp) (takes_inlinePattern.mpr ?_)
        exact ⟨[], x, [], by simp, by simp, hx, by simp, rfl⟩
      rw [ih, trimDollars_of_not_mem ht, trimDollars_single ht]
    · rw [ih, trimDollars_cons hc]
  | @found m t' hm _ ih =>
    obtain ⟨x, hx, hwhole, htrim⟩ := trimInline_eq hm
    have htext : m.whole ++ m.after = '$' :: (x ++ '$' :: m.after) := by simp [hwhole]
    rw [htrim, ih, htext, trimDollars_pair hx]
    simp

theorem replaceAll_trimInline (t : Text) : inlinePattern.replaceAll trimInline t = trimDollars t :=
  eq_trimDollars_of_replaces (replaces_replaceAll (by decide) (by decide) trimInline t)

end DiagramRepair.MathDelimiter
