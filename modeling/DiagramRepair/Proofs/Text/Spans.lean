import DiagramRepair.Text.Basic
import Mathlib.Data.List.Basic

namespace DiagramRepair.Text

variable {c : Char} {p q u u' r r' x y : Text} {P : Char → Bool}

theorem exists_run (P : Char → Bool) (t : Text) :
    ∃ u r, t = u ++ r ∧ (∀ c ∈ u, P c) ∧ ∀ c ∈ r.head?, P c = false := by
  refine ⟨t.takeWhile P, t.dropWhile P, List.takeWhile_append_dropWhile.symm,
    fun c hc ↦ List.all_eq_true.mp List.all_takeWhile c hc, fun c hc ↦ ?_⟩
  simpa [Option.mem_def.mp hc] using List.head?_dropWhile_not P t

/-- A text has one longest run of a class at its start. -/
theorem run_unique (hu : ∀ c ∈ u, P c) (hu' : ∀ c ∈ u', P c) (hr : ∀ c ∈ r.head?, P c = false)
    (hr' : ∀ c ∈ r'.head?, P c = false) (h : u ++ r = u' ++ r') : u = u' ∧ r = r' := by
  induction u generalizing u' with
  | nil =>
    cases u' with
    | nil => exact ⟨rfl, h⟩
    | cons c u' =>
      rw [List.nil_append] at h
      have hc := hr c (by simp [h])
      simp [hu' c (by simp)] at hc
  | cons c u ih =>
    cases u' with
    | nil =>
      rw [List.nil_append] at h
      have hc := hr' c (by simp [← h])
      simp [hu c (by simp)] at hc
    | cons d u' =>
      obtain ⟨rfl, htail⟩ := List.cons.inj h
      obtain ⟨rfl, rfl⟩ := ih (fun d hd ↦ hu d (by simp [hd])) (fun d hd ↦ hu' d (by simp [hd]))
        htail
      exact ⟨rfl, rfl⟩

/-- A text has one longest run of a class at its end. -/
theorem run_unique_right (hu : ∀ c ∈ u, P c) (hu' : ∀ c ∈ u', P c)
    (hr : ∀ c ∈ r.getLast?, P c = false) (hr' : ∀ c ∈ r'.getLast?, P c = false)
    (h : r ++ u = r' ++ u') : r = r' ∧ u = u' := by
  have hreverse : u.reverse ++ r.reverse = u'.reverse ++ r'.reverse := by
    rw [← List.reverse_append, h, List.reverse_append]
  obtain ⟨hu, hr⟩ := run_unique (P := P) (by simpa using hu) (by simpa using hu')
    (by simpa using hr) (by simpa using hr') hreverse
  exact ⟨List.reverse_injective hr, List.reverse_injective hu⟩

/-- A text is cut in one way only where a character stands for the first time. -/
theorem append_cons_inj (hp : c ∉ p) (hq : c ∉ q) (h : p ++ c :: x = q ++ c :: y) :
    p = q ∧ x = y := by
  have hne : ∀ {t : Text}, c ∉ t → ∀ d ∈ t, (d != c) = true := by
    intro t ht d hd
    rw [bne_iff_ne]
    rintro rfl
    exact ht hd
  obtain ⟨rfl, htail⟩ := run_unique (hne hp) (hne hq) (by simp) (by simp) h
  exact ⟨rfl, (List.cons.inj htail).2⟩

theorem exists_of_not_mem_left (hx : c ∉ x) (h : x ++ y = p ++ c :: q) :
    ∃ p', p = x ++ p' ∧ y = p' ++ c :: q := by
  rcases List.append_eq_append_iff.mp h with ⟨s, rfl, hy⟩ | ⟨s, rfl, hq⟩
  · exact ⟨s, rfl, hy⟩
  · cases s with
    | nil => exact ⟨[], by simp, by simpa using hq.symm⟩
    | cons d s =>
      obtain ⟨rfl, -⟩ := List.cons.inj hq
      simp at hx

theorem exists_of_not_mem_right (hy : c ∉ y) (h : x ++ y = p ++ c :: q) :
    ∃ q', x = p ++ c :: q' ∧ q = q' ++ y := by
  rcases List.append_eq_append_iff.mp h with ⟨s, rfl, rfl⟩ | ⟨s, rfl, hq⟩
  · simp at hy
  · cases s with
    | nil =>
      rw [List.nil_append] at hq
      simp [← hq] at hy
    | cons d s =>
      obtain ⟨rfl, htail⟩ := List.cons.inj hq
      exact ⟨s, rfl, htail⟩

/-- Where a character stands, it stands for the first time or later. -/
theorem first_or_later (hp : c ∉ p) (h : p ++ c :: x = q ++ c :: y) :
    q = p ∧ x = y ∨ ∃ q', q = p ++ c :: q' ∧ x = q' ++ c :: y := by
  obtain ⟨s, rfl, hs⟩ := exists_of_not_mem_left hp h
  cases s with
  | nil => exact .inl ⟨by simp, (List.cons.inj hs).2⟩
  | cons d s =>
    obtain ⟨rfl, htail⟩ := List.cons.inj hs
    exact .inr ⟨s, rfl, htail⟩

/-- The first place in a text from which on a property holds that holds behind the text. -/
theorem exists_first {P : Text → Prop} {s : Text} (h : P s) (x : Text) :
    ∃ y z, x = y ++ z ∧ P (z ++ s) ∧ ∀ y₁ y₂, y = y₁ ++ y₂ → y₂ ≠ [] → ¬ P (y₂ ++ (z ++ s)) := by
  induction x with
  | nil => exact ⟨[], [], rfl, h, by simp⟩
  | cons c x ih =>
    by_cases hc : P (c :: (x ++ s))
    · exact ⟨[], c :: x, rfl, hc, by simp⟩
    · obtain ⟨y, z, rfl, hz, hfirst⟩ := ih
      refine ⟨c :: y, z, rfl, hz, fun y₁ y₂ hy hne ↦ ?_⟩
      cases y₁ with
      | nil =>
        rw [List.nil_append] at hy
        simpa [← hy] using hc
      | cons d y₁ => exact hfirst y₁ y₂ (List.cons.inj hy).2 hne

end DiagramRepair.Text
