import DiagramRepair.Proofs.Placeholder.Intact
import Mathlib.Data.List.Flatten
import Mathlib.Data.List.Forall2

namespace DiagramRepair

open Pattern Registry

variable {T : Text → Prop} {E : (b u r v : Text) → Prop} {b u r k t t' t'' : Text} {c : Char}
  {ks ls : List Text}

def TokensAlone (T : Text → Prop) (t : Text) : Prop := ∀ l ∈ Text.lines t, tokenOpen ∉ l ∨ T l

def KeepsRows (T : Text → Prop) (t t' : Text) : Prop :=
  ∀ ks : List Text, (∀ k ∈ ks, T k) → ks.Sublist (Text.lines t) → ks.Sublist (Text.lines t')

theorem TokensAlone.intact (h : TokensAlone T t) (hT : TokenLike T) : Intact T t := by
  refine (intact_iff_lines hT).mpr fun l hl ↦ ?_
  rcases h l hl with hno | hl
  · exact intact_of_not_mem hno
  · exact hT.intact hl

theorem tokensAlone_of_not_mem (h : tokenOpen ∉ t) : TokensAlone T t :=
  fun _ hl ↦ .inl fun hmem ↦ h (Text.mem_of_mem_lines hmem hl)

theorem KeepsRows.refl (T : Text → Prop) (t : Text) : KeepsRows T t t := fun _ _ h ↦ h

theorem KeepsRows.trans (h : KeepsRows T t t') (h' : KeepsRows T t' t'') : KeepsRows T t t'' :=
  fun ks hks hsub ↦ h' ks hks (h ks hks hsub)

theorem TokenLike.exists_cons (hT : TokenLike T) (hk : T k) : ∃ w, k = tokenOpen :: w := by
  obtain ⟨w, rfl, -⟩ := hT k hk
  exact ⟨_, rfl⟩

theorem TokenLike.ne_nil (hT : TokenLike T) (hk : T k) : k ≠ [] := by
  obtain ⟨w, rfl⟩ := hT.exists_cons hk
  simp

theorem sublist_of_forall₂ {R : Text → Text → Prop} {ls' : List Text} (h : List.Forall₂ R ls ls')
    (hR : ∀ k ∈ ks, ∀ l, R k l → l = k) (hsub : ks.Sublist ls) : ks.Sublist ls' := by
  induction h generalizing ks with
  | nil => exact hsub
  | @cons l l' ls ls' hl _ ih =>
    rcases List.sublist_cons_iff.mp hsub with hrest | ⟨ks', rfl, hrest⟩
    · exact (ih hR hrest).cons l'
    · rw [hR l (by simp) l' hl]
      exact (ih (fun k hk ↦ hR k (by simp [hk])) hrest).cons_cons l

theorem sublist_lines_unlines (hT : TokenLike T) (hks : ∀ k ∈ ks, T k) (hls : ls ≠ [])
    (h : ks.Sublist ls) : ks.Sublist (Text.lines (Text.unlines ls)) := by
  have hlines : ∀ k ∈ ks, Text.lines k = [k] :=
    fun k hk ↦ Text.lines_of_not_mem (hT.not_mem (hks k hk) (by decide))
  have hself : ks.flatMap Text.lines = ks := by
    rw [List.flatMap_def, List.map_congr_left hlines, ← List.flatMap_def, List.flatMap_singleton']
  rw [Text.lines_unlines_flatMap hls, ← hself]
  exact h.flatMap Text.lines

theorem keepsRows_unlines {ls' : List Text} (h : List.Forall₂ (KeepsRows T) ls ls') :
    KeepsRows T (Text.unlines ls) (Text.unlines ls') := by
  intro ks hks hsub
  by_cases hnil : ls = []
  · subst hnil
    rw [List.forall₂_nil_left_iff.mp h]
    exact hsub
  · have hnil' : ls' ≠ [] := by
      rintro rfl
      exact hnil (List.forall₂_nil_right_iff.mp h)
    rw [Text.lines_unlines_flatMap hnil] at hsub
    rw [Text.lines_unlines_flatMap hnil']
    clear hnil hnil'
    induction h generalizing ks with
    | nil => exact hsub
    | @cons l l' ls ls' hl _ ih =>
      rw [List.flatMap_cons] at hsub ⊢
      obtain ⟨ks₁, ks₂, rfl, h₁, h₂⟩ := List.sublist_append_iff.mp hsub
      have hrows := hl ks₁ (fun k hk ↦ hks k (by simp [hk])) h₁
      exact hrows.append (ih ks₂ (fun k hk ↦ hks k (by simp [hk])) h₂)

/-- An edit that holds no opening character of a token and begins and ends within a line. -/
def SkirtsRows (u : Text) : Prop :=
  tokenOpen ∉ u ∧ (∃ c v, u = c :: v ∧ isTokenChar c = false ∧ c ≠ '\n') ∧ u.getLast? ≠ some '\n'

theorem sublist_tail_of_cons (hT : TokenLike T) (hks : ∀ k ∈ ks, T k) (hc : c ≠ tokenOpen)
    (h : ks.Sublist (Text.lines (c :: t))) : ks.Sublist (Text.lines (c :: t)).tail := by
  cases hlines : Text.lines (c :: t) with
  | nil => exact absurd hlines (Text.lines_ne_nil _)
  | cons l ls =>
    rw [hlines] at h
    rcases List.sublist_cons_iff.mp h with h | ⟨ks', rfl, -⟩
    · exact h
    · obtain ⟨w, rfl⟩ := hT.exists_cons (hks l (by simp))
      have htext := Text.unlines_lines (c :: t)
      rw [hlines] at htext
      rcases List.eq_nil_or_concat ls with rfl | ⟨ls, l, rfl⟩
      · rw [Text.unlines_singleton] at htext
        exact absurd (List.cons.inj htext).1.symm hc
      · rw [Text.unlines_cons (by simp)] at htext
        exact absurd (List.cons.inj htext).1.symm hc

theorem sublist_tail_of_skirtsRows (hT : TokenLike T) (hks : ∀ k ∈ ks, T k) (hopen : tokenOpen ∉ u)
    (hlast : u.getLast? ≠ some '\n') (h : ks.Sublist (Text.lines (u ++ r)).tail) :
    ks.Sublist (Text.lines r).tail := by
  induction u with
  | nil => exact h
  | cons c u ih =>
    rw [List.mem_cons, not_or] at hopen
    rw [List.cons_append] at h
    cases u with
    | nil => rwa [Text.tail_lines_cons (by simpa using hlast)] at h
    | cons d u =>
      refine ih hopen.2 (by simpa using hlast) ?_
      by_cases hc : c = '\n'
      · subst hc
        rw [Text.lines_newline_cons, List.tail_cons] at h
        refine sublist_tail_of_cons hT hks ?_ h
        rintro rfl
        simp at hopen
      · rwa [Text.tail_lines_cons hc] at h

theorem sublist_of_edits_line (hT : TokenLike T) (hE : ∀ {b u r v}, E b u r v → SkirtsRows u)
    (hks : ∀ k ∈ ks, T k) (h : Edits E b t t') (hsub : ks.Sublist (Text.lines t))
    (htail : ks.Sublist (Text.lines t).tail → ks.Sublist (Text.lines t').tail)
    (hrest : ∀ {b r r' : Text} {ks : List Text}, r.length < t.length → Edits E b r r' →
      (∀ k ∈ ks, T k) → ks.Sublist (Text.lines r) → ks.Sublist (Text.lines r')) :
    ks.Sublist (Text.lines t') := by
  have hbegins : ∀ {b u r v}, E b u r v → ∃ c u', u = c :: u' ∧ isTokenChar c = false := by
    intro b u r v he
    obtain ⟨-, ⟨c, v, hu, hc, -⟩, -⟩ := hE he
    exact ⟨c, v, hu, hc⟩
  have hlater := fun h ↦ (htail h).trans (List.tail_sublist _)
  rcases Text.lines_cases t with ⟨ht, he⟩ | ⟨l, r, rfl, hl, he⟩
  · rw [he] at hsub hlater
    rcases List.sublist_cons_iff.mp hsub with hnil | ⟨ks', rfl, hks'⟩
    · exact hlater hnil
    · obtain rfl := List.sublist_nil.mp hks'
      have hk := hks t (by simp)
      obtain ⟨r', rfl, hr'⟩ := edits_token_append (t := []) hbegins
        (fun c hc ↦ isTokenChar_of_mem hT hk hc) (by simpa using h)
      obtain rfl := hr'.eq_nil fun he ↦ by
        obtain ⟨c, u, rfl, -⟩ := hbegins he
        simp
      rw [List.append_nil, he]
  · rw [he] at hsub hlater
    rcases List.sublist_cons_iff.mp hsub with hnil | ⟨ks', rfl, hks'⟩
    · exact hlater hnil
    · have hk := hks l (by simp)
      obtain ⟨r', rfl, hr'⟩ := edits_token_append hbegins
        (fun c hc ↦ isTokenChar_of_mem hT hk hc) h
      generalize htext : '\n' :: r = v at hr'
      cases hr' with
      | nil => simp at htext
      | keep hr' =>
        obtain ⟨rfl, rfl⟩ := List.cons.inj htext
        rw [Text.lines_append_newline, Text.lines_of_not_mem hl]
        exact (hrest (by simp; omega) hr' (fun k hk ↦ hks k (by simp [hk])) hks').cons_cons l
      | edit he _ =>
        obtain ⟨-, ⟨c, v, rfl, -, hc⟩, -⟩ := hE he
        exact absurd (List.cons.inj htext).1.symm hc

theorem sublist_of_edits (hT : TokenLike T) (hE : ∀ {b u r v}, E b u r v → SkirtsRows u)
    (hks : ∀ k ∈ ks, T k) (h : Edits E b t t') :
    (ks.Sublist (Text.lines t).tail → ks.Sublist (Text.lines t').tail) ∧
      (ks.Sublist (Text.lines t) → ks.Sublist (Text.lines t')) := by
  -- An edit can reach over lines, so the induction is on the length. The first conjunct speaks of a
  -- text whose first line may be the rest of a line that was edited before.
  induction hn : t.length using Nat.strongRecOn generalizing b t t' ks with
  | _ n ih =>
    have htail : ks.Sublist (Text.lines t).tail → ks.Sublist (Text.lines t').tail := by
      intro hsub
      cases h with
      | nil => exact hsub
      | @keep _ t t' c h =>
        have hlen : t.length < n := by simp [← hn]
        by_cases hc : c = '\n'
        · subst hc
          rw [Text.lines_newline_cons, List.tail_cons] at hsub ⊢
          exact (ih t.length hlen hks h rfl).2 hsub
        · rw [Text.tail_lines_cons hc] at hsub ⊢
          exact (ih t.length hlen hks h rfl).1 hsub
      | @edit _ u r v t' he h =>
        obtain ⟨hopen, ⟨c, w, hu, -⟩, hlast⟩ := hE he
        have hrest := sublist_tail_of_skirtsRows hT hks hopen hlast hsub
        have hlen : r.length < n := by
          rw [← hn, hu, List.length_append, List.length_cons]
          omega
        exact ((ih r.length hlen hks h rfl).1 hrest).trans (Text.tail_lines_sublist_append v t')
    refine ⟨htail, fun hsub ↦ sublist_of_edits_line hT hE hks h hsub htail ?_⟩
    intro b r r' ks hlen hr hks hsub
    exact (ih r.length (hn ▸ hlen) hks hr rfl).2 hsub

theorem keepsRows_of_edits (hT : TokenLike T) (hE : ∀ {b u r v}, E b u r v → SkirtsRows u)
    (h : Edits E b t t') : KeepsRows T t t' :=
  fun _ hks ↦ (sublist_of_edits hT hE hks h).2

end DiagramRepair
