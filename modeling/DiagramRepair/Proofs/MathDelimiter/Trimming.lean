import DiagramRepair.Proofs.MathDelimiter.Display

namespace DiagramRepair.MathDelimiter

open Registry

variable {token : Nat → Text} {s t u p : Text} {count n : Nat}

theorem hideDollars_of_not_mem (ht : '\\' ∉ t) : hideDollars token n t = t := by
  have hend : hideDollars token n (t ++ []) = t ++ hideDollars token n [] :=
    hideDollars_append_of_not_mem ht
  simpa [hideDollars] using hend

theorem toDollars_of_not_mem (ht : '\\' ∉ t) : toDollars t = t := by
  have hend : toDollars (t ++ []) = t ++ toDollars [] := toDollars_append_of_not_mem ht
  simpa [toDollars] using hend

theorem trimPiece_infix_self (count i : Nat) (p : Text) : trimPiece count i p <:+: p := by
  rw [trimPiece]
  split
  · exact Text.trim_infix_self p
  · exact List.infix_rfl

theorem trimPiece_trimPiece (count i : Nat) (p : Text) :
    trimPiece count i (trimPiece count i p) = trimPiece count i p := by
  rw [trimPiece]
  split
  · rename_i hinside
    rw [trimPiece, if_pos hinside, Text.trim_trim]
  · rfl

/-- The pieces that are joined again, each a part of one of the text. -/
theorem exists_of_mem_trimmed (h : p ∈ (t.splitOn '$').mapIdx (trimPiece count)) :
    ∃ q ∈ t.splitOn '$', p <:+: q := by
  obtain ⟨i, hi, rfl⟩ := List.mem_mapIdx.mp h
  exact ⟨_, List.getElem_mem hi, trimPiece_infix_self count i _⟩

theorem splitOn_trimDollars (t : Text) :
    (trimDollars t).splitOn '$' = (t.splitOn '$').mapIdx (trimPiece (t.splitOn '$').length) := by
  refine List.splitOn_intercalate '$' (fun p hp hdollar ↦ ?_) (by simp)
  obtain ⟨q, hq, hpart⟩ := exists_of_mem_trimmed hp
  exact Text.not_mem_of_mem_splitOn hq (hpart.subset hdollar)

theorem count_trimDollars (t : Text) : (trimDollars t).count '$' = t.count '$' := by
  have hlength := Text.length_splitOn '$' (trimDollars t)
  rw [splitOn_trimDollars, List.length_mapIdx, Text.length_splitOn] at hlength
  omega

theorem trimDollars_trimDollars (t : Text) : trimDollars (trimDollars t) = trimDollars t := by
  have hagain : ∀ count, (fun i ↦ trimPiece count i ∘ trimPiece count i) = trimPiece count :=
    fun count ↦ funext fun i ↦ funext (trimPiece_trimPiece count i)
  rw [trimDollars, splitOn_trimDollars, List.length_mapIdx, List.mapIdx_mapIdx, hagain]
  rfl

theorem not_mem_trimDollars {c : Char} (hc : c ≠ '$') (ht : c ∉ t) : c ∉ trimDollars t := by
  refine Text.not_mem_intercalate (by simpa using hc) fun p hp hmem ↦ ?_
  obtain ⟨q, hq, hpart⟩ := exists_of_mem_trimmed hp
  exact ht ((Text.infix_of_mem_splitOn hq).subset (hpart.subset hmem))

/-- The last dollar pairs with none before it where these are even in number. -/
theorem trimDollars_append_single (hs : Even (s.count '$')) (hu : '$' ∉ u) :
    trimDollars (s ++ '$' :: u) = trimDollars s ++ '$' :: u := by
  rw [Nat.even_iff] at hs
  have hlength := Text.length_splitOn '$' s
  have hbefore : (s.splitOn '$').mapIdx (trimPiece ((s.splitOn '$').length + 1)) =
      (s.splitOn '$').mapIdx (trimPiece (s.splitOn '$').length) := by
    refine List.mapIdx_eq_mapIdx_iff.mpr fun i hi ↦ ?_
    have hiff : i % 2 = 1 ∧ i + 1 < (s.splitOn '$').length + 1 ↔
        i % 2 = 1 ∧ i + 1 < (s.splitOn '$').length := by omega
    simp only [trimPiece, hiff]
  have hlast : ∀ count, trimPiece (count + 1) (0 + count) u = u := fun count ↦ if_neg (by omega)
  have hsplit : (s ++ '$' :: u).splitOn '$' = s.splitOn '$' ++ [u] := by
    rw [List.splitOn_append_cons_self, List.splitOn_eq_singleton hu]
  rw [trimDollars, hsplit]
  simp only [List.length_append, List.length_singleton, List.mapIdx_append, List.mapIdx_cons,
    List.mapIdx_nil, hbefore, hlast]
  rw [Text.intercalate_append (by simp) (by simp), List.intercalate_singleton]
  rfl

theorem pieces_plainDollars [Nonces] (ht : '\\' ∉ t) : (plainDollars t).pieces = #[] := by
  have hpieces : ∀ u, u ∉ (hideMatches (Pattern.sign "\\$") "DOLLAR" t).2.pieces := by
    intro u hu
    rcases Part.mem_pieces_conceal hu with hu | hu
    · simp [fresh] at hu
    · obtain ⟨piece, hmem, hpiece⟩ := List.mem_map.mp hu
      cases piece with
      | plain c => simp at hpiece
      | found m =>
        have hscans := Pattern.scans_pieces (p := Pattern.sign "\\$") (by decide) (by decide) t
        obtain ⟨⟨gs, htakes, -⟩, hpart⟩ := hscans.of_mem hmem
        obtain ⟨hwhole, -⟩ := Pattern.takes_sign.mp htakes
        exact ht (hpart.subset (by simp [hwhole]))
  have hempty : (hideMatches (Pattern.sign "\\$") "DOLLAR" t).2.pieces = #[] :=
    Array.eq_empty_iff_forall_not_mem.mpr hpieces
  simp [plainDollars, hempty]

theorem cleanup_eq_trimDollars [Nonces] (ht : '\\' ∉ t) : cleanup t = trimDollars t := by
  rw [cleanup_eq, hideDollars_of_not_mem ht, toDollars_of_not_mem ht]
  exact restore_of_no_pieces (pieces_plainDollars ht)

/-- Where no backslash stands, every second piece between dollars loses its margins if another
dollar ends it, and nothing else changes. So no dollar comes or goes, a last dollar without a
partner changes nothing behind it, and a second cleanup changes nothing. -/
theorem cleanup_trims_pairs [Nonces] (ht : '\\' ∉ t) :
    cleanup t = ['$'].intercalate ((t.splitOn '$').mapIdx fun i p ↦
        if i % 2 = 1 ∧ i + 1 < (t.splitOn '$').length then Text.trim p else p) ∧
      (cleanup t).count '$' = t.count '$' ∧
      (∀ s u, t = s ++ '$' :: u → Even (s.count '$') → '$' ∉ u →
        cleanup t = cleanup s ++ '$' :: u) ∧
      cleanup (cleanup t) = cleanup t := by
  have hclean := cleanup_eq_trimDollars ht
  refine ⟨hclean, ?_, ?_, ?_⟩
  · rw [hclean, count_trimDollars]
  · rintro s u rfl heven hu
    have hs : '\\' ∉ s := fun hmem ↦ ht (List.mem_append_left _ hmem)
    rw [hclean, trimDollars_append_single heven hu, cleanup_eq_trimDollars hs]
  · have hback : '\\' ∉ trimDollars t := not_mem_trimDollars (by decide) ht
    rw [hclean, cleanup_eq_trimDollars hback, trimDollars_trimDollars]

section

attribute [local instance] Nonces.zeros

/-- A formula over two lines, a display, a formula of blanks only, and a price without a partner:
nine dollars. -/
theorem cleanup_trims_pairs_nine :
    let s := Text.of "Let $ x\n $ be $$ y $$, $  $ "
    let u := Text.of " 7 "
    let t := s ++ '$' :: u
    ('\\' ∉ t ∧ t.count '$' = 9 ∧ '$' ∉ u) ∧ cleanup t = Text.of "Let $x$ be $$ y $$, $$ $ 7 " ∧
      (cleanup t).count '$' = 9 ∧ cleanup t = cleanup s ++ '$' :: u ∧
      cleanup (cleanup t) = cleanup t := by
  intro s u t
  have hback : '\\' ∉ t := by decide
  have hnine : t.count '$' = 9 := by decide
  have hu : '$' ∉ u := by decide
  have heven : Even (s.count '$') := ⟨4, by decide⟩
  obtain ⟨hclean, hcount, hlast, hagain⟩ := cleanup_trims_pairs hback
  refine ⟨⟨hback, hnine, hu⟩, ?_, hcount.trans hnine, hlast s u rfl heven hu, hagain⟩
  rw [hclean]
  decide

end

end DiagramRepair.MathDelimiter
