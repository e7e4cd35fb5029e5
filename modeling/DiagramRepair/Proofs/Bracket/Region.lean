import DiagramRepair.Proofs.Bracket
import Mathlib.Data.List.Basic
import Mathlib.Data.List.Induction
import Mathlib.Tactic.ByContra

namespace DiagramRepair.Brackets

variable {o c e : Char} {d n : Nat} {r s t u v w : Text}

structure Region (o c : Char) (u : Text) : Prop where
  head : u.head? = some o
  even : u.count o = u.count c
  uneven : ∀ v w, u = v ++ w → v ≠ [] → w ≠ [] → v.count o ≠ v.count c

theorem Region.ne_nil (h : Region o c u) : u ≠ [] := by
  rintro rfl
  simpa using h.head

/-- Before the end of a region more brackets have opened than closed. -/
theorem Region.count_lt (h : Region o c u) (hoc : o ≠ c) (hu : u = v ++ w) (hv : v ≠ [])
    (hw : w ≠ []) : v.count c < v.count o := by
  induction v using List.reverseRecOn generalizing w with
  | nil => exact absurd rfl hv
  | append_singleton v e ih =>
    by_cases hnil : v = []
    · obtain rfl : e = o := by simpa [hu, hnil] using h.head
      simp [hnil, hoc]
    · -- One more character changes the counts by one at most, and they do not meet.
      have hlt := ih (w := e :: w) (by simpa using hu) hnil (by simp)
      have hne := h.uneven _ _ hu hv hw
      simp only [List.count_append, List.count_singleton] at hne ⊢
      split_ifs at hne ⊢ <;> omega

theorem Region.one_lt_length (h : Region o c u) (hoc : o ≠ c) : 1 < u.length := by
  obtain ⟨e, u, rfl⟩ := List.exists_cons_of_ne_nil h.ne_nil
  obtain rfl := Option.some.inj h.head
  cases u with
  | nil => simpa [hoc] using h.even
  | cons => simp

theorem Region.exists_eq (h : Region o c u) (hoc : o ≠ c) : ∃ x, u = o :: (x ++ [c]) := by
  obtain ⟨d, u, rfl⟩ := List.exists_cons_of_ne_nil h.ne_nil
  obtain rfl := Option.some.inj h.head
  have hlong := h.one_lt_length hoc
  obtain ⟨x, e, rfl⟩ := (List.eq_nil_or_concat' u).resolve_left (by rintro rfl; simp at hlong)
  have hlt := h.count_lt hoc (v := d :: x) (w := [e]) rfl (by simp) (by simp)
  have heven := h.even
  rw [← List.cons_append, List.count_append, List.count_append] at heven
  obtain rfl : e = c := by
    by_contra hne
    have hzero : [e].count c = 0 := List.count_eq_zero.mpr (by simpa using Ne.symm hne)
    omega
  exact ⟨x, rfl⟩

/-- A region that starts inside another one ends inside it. -/
theorem Region.nested {u' r' : Text} (h : Region o c u) (h' : Region o c u') (hoc : o ≠ c)
    (heq : u ++ r = s ++ (u' ++ r')) (hs : s.length < u.length) :
    s.length + u'.length ≤ u.length := by
  rcases List.append_eq_append_iff.mp heq with ⟨x, rfl, -⟩ | ⟨v, rfl, hv⟩
  · rw [List.length_append] at hs
    omega
  · have hne : v ≠ [] := by
      rintro rfl
      simp at hs
    rcases List.append_eq_append_iff.mp hv with ⟨w, rfl, -⟩ | ⟨w, rfl, -⟩
    · simp
    · by_cases hw : w = []
      · simp [hw]
      · -- The part of the inner region up to the end of the outer one is not even, nor is the rest.
        have hinner := h'.count_lt hoc rfl hne hw
        have houter := h.even
        rw [List.count_append, List.count_append] at houter
        by_cases hnil : s = []
        · simp only [hnil, List.count_nil] at houter
          omega
        · have hbefore := h.count_lt hoc rfl hnil hne
          omega

theorem count_cons_eq (a e : Char) (v : Text) : (e :: v).count a = [e].count a + v.count a := by
  rw [← List.singleton_append, List.count_append]

/-- A character that leaves brackets open is passed. -/
theorem closingAfter?_cons (hoc : o ≠ c) (hd : [e].count c < d + [e].count o) (t : Text) :
    (ofChars o c).closingAfter? d (e :: t) =
      ((ofChars o c).closingAfter? (d + [e].count o - [e].count c) t).map (· + 1) := by
  by_cases ho : e = o
  · simp [closingAfter?, ofChars, ho, hoc]
  · by_cases hc : e = c
    · subst hc
      have hdepth : ¬ d ≤ 1 := by
        simp only [List.count_singleton_self, List.count_singleton, beq_iff_eq, ho, if_false] at hd
        omega
      simp [closingAfter?, ofChars, ho, hdepth]
    · simp [closingAfter?, ofChars, ho, hc]

theorem closingAfter?_last (hoc : o ≠ c) (t : Text) :
    (ofChars o c).closingAfter? 1 (c :: t) = some 0 := by
  simp [closingAfter?, ofChars, hoc.symm]

theorem closingAfter?_append (hoc : o ≠ c) (hu : ∀ v w, u = v ++ w → v.count c < d + v.count o)
    (t : Text) : (ofChars o c).closingAfter? d (u ++ t) =
      ((ofChars o c).closingAfter? (d + u.count o - u.count c) t).map (u.length + ·) := by
  induction u generalizing d with
  | nil => simp
  | cons e u ih =>
    have hfirst := hu [e] u rfl
    have hrest : ∀ v w, u = v ++ w →
        v.count c < d + [e].count o - [e].count c + v.count o := by
      intro v w h
      have hv := hu (e :: v) w (by rw [h, List.cons_append])
      have hc := count_cons_eq c e v
      have ho := count_cons_eq o e v
      omega
    have hdepth : d + [e].count o - [e].count c + u.count o - u.count c =
        d + (e :: u).count o - (e :: u).count c := by
      have hc := count_cons_eq c e u
      have ho := count_cons_eq o e u
      omega
    rw [List.cons_append, closingAfter?_cons hoc hfirst, ih hrest, hdepth]
    simp [Function.comp_def, Nat.add_right_comm]

theorem exists_open_of_closingAfter? (hoc : o ≠ c) (hd : 0 < d)
    (h : (ofChars o c).closingAfter? d t = some n) : ∃ x r, t = x ++ c :: r ∧ x.length = n ∧
      d + x.count o = x.count c + 1 ∧ ∀ v w, x = v ++ w → v.count c < d + v.count o := by
  induction t generalizing d n with
  | nil => simp [closingAfter?] at h
  | cons e t ih =>
    by_cases hpass : [e].count c < d + [e].count o
    · rw [closingAfter?_cons hoc hpass] at h
      obtain ⟨m, hm, rfl⟩ := Option.map_eq_some_iff.mp h
      obtain ⟨x, r, rfl, rfl, hcount, hx⟩ := ih (by omega) hm
      refine ⟨e :: x, r, rfl, rfl, ?_, fun v w hv ↦ ?_⟩
      · have hc := count_cons_eq c e x
        have ho := count_cons_eq o e x
        omega
      · cases v with
        | nil => simpa using hd
        | cons e' v =>
          obtain ⟨rfl, hx'⟩ := List.cons.inj hv
          have hlt := hx v w hx'
          have hc := count_cons_eq c e v
          have ho := count_cons_eq o e v
          omega
    · obtain rfl : e = c := by
        by_contra hne
        have hzero : [e].count c = 0 := List.count_eq_zero.mpr (by simpa using Ne.symm hne)
        omega
      have hone : d = 1 := by
        simp only [List.count_singleton_self] at hpass
        omega
      rw [hone, closingAfter?_last hoc] at h
      obtain rfl := Option.some.inj h
      refine ⟨[], t, rfl, rfl, by simp [hone], fun v w hv ↦ ?_⟩
      obtain ⟨rfl, -⟩ := List.append_eq_nil_iff.mp hv.symm
      simpa using hd

theorem Region.closing? (h : Region o c u) (hoc : o ≠ c) (r : Text) :
    (ofChars o c).closing? (u ++ r) = some (u.length - 1) := by
  obtain ⟨x, rfl⟩ := h.exists_eq hoc
  have hopen : ∀ v w, x = v ++ w → v.count c < 1 + v.count o := fun v w hv ↦ by
    have hlt := h.count_lt hoc (v := o :: v) (w := w ++ [c]) (by simp [hv]) (by simp) (by simp)
    simpa [hoc, Nat.add_comm] using hlt
  have hone : 1 + x.count o - x.count c = 1 := by
    have heven := h.even
    simp [hoc, hoc.symm] at heven
    omega
  have hopens : (ofChars o c).opens o := by simp [ofChars]
  rw [List.cons_append, Brackets.closing?, if_pos hopens, List.append_assoc,
    closingAfter?_append hoc hopen, hone, List.singleton_append, closingAfter?_last hoc]
  simp

/-- The search from the start of a text finds a region. -/
theorem exists_region_of_closing? (hoc : o ≠ c) (h : (ofChars o c).closing? t = some n) :
    ∃ u r, t = u ++ r ∧ u.length = n + 1 ∧ Region o c u := by
  cases t with
  | nil => simp [Brackets.closing?] at h
  | cons e t =>
    rw [Brackets.closing?] at h
    split_ifs at h with hopen
    obtain rfl : e = o := by simpa [ofChars] using hopen
    obtain ⟨m, hm, rfl⟩ := Option.map_eq_some_iff.mp h
    obtain ⟨x, r, rfl, rfl, hcount, hx⟩ := exists_open_of_closingAfter? hoc Nat.one_pos hm
    refine ⟨e :: (x ++ [c]), r, by simp, by simp, rfl, ?_, fun v w hv hne hw ↦ ?_⟩
    · simp [hoc, hoc.symm]
      omega
    · obtain ⟨e', v, rfl⟩ := List.exists_cons_of_ne_nil hne
      obtain ⟨w, c', rfl⟩ := (List.eq_nil_or_concat' w).resolve_left hw
      obtain ⟨rfl, hinner⟩ := List.cons.inj hv
      have hsplit : x ++ [c] = v ++ w ++ [c'] := by simpa using hinner
      have hlt := hx v w (List.append_inj_left' hsplit rfl)
      simp [hoc]
      omega

theorem region_of_closing? (hoc : o ≠ c) (h : (ofChars o c).closing? (u ++ r) = some n)
    (hlen : u.length = n + 1) : Region o c u := by
  obtain ⟨u', r', heq, hlen', hu⟩ := exists_region_of_closing? hoc h
  rwa [(List.append_inj heq (hlen.trans hlen'.symm)).1]

end DiagramRepair.Brackets
