import DiagramRepair.Proofs.Bracket.Region
import Mathlib.Data.List.Forall2
import Mathlib.Data.List.Pairwise

namespace DiagramRepair

namespace Brackets

variable {o c : Char} {i j k : Nat} {r s t u v w : Text}

def slice (t : Text) (i j : Nat) : Text := (t.drop i).take (j + 1 - i)

/-- An opening bracket stands at `i`, and `j` is the least index above it up to which as many
brackets have closed as opened. -/
structure Balanced (o c : Char) (t : Text) (i j : Nat) : Prop where
  opens : t[i]? = some o
  lt : i < j
  inside : j < t.length
  even : (slice t i j).count o = (slice t i j).count c
  least : ∀ k, i < k → k < j → (slice t i k).count o ≠ (slice t i k).count c

def Outermost (o c : Char) (t : Text) (i j : Nat) : Prop :=
  Balanced o c t i j ∧ ∀ i' j', Balanced o c t i' j' → i' ≤ i → j ≤ j' → i' = i ∧ j' = j

theorem slice_append (s t : Text) (j : Nat) :
    slice (s ++ t) s.length j = t.take (j + 1 - s.length) := by
  rw [slice, List.drop_left]

theorem Region.balanced (h : Region o c u) (hoc : o ≠ c) (s r : Text) :
    Balanced o c (s ++ (u ++ r)) s.length (s.length + u.length - 1) := by
  have hlong := h.one_lt_length hoc
  have hslice : slice (s ++ (u ++ r)) s.length (s.length + u.length - 1) = u := by
    have hlen : s.length + u.length - 1 + 1 - s.length = u.length := by omega
    rw [slice_append, hlen, List.take_left]
  refine ⟨?_, by omega, by simp; omega, by rw [hslice, h.even], fun k hik hkj ↦ ?_⟩
  · rw [List.getElem?_append_right (Nat.le_refl _), Nat.sub_self, ← List.head?_eq_getElem?]
    obtain ⟨e, u, rfl⟩ := List.exists_cons_of_ne_nil h.ne_nil
    exact h.head
  · rw [slice_append, List.take_append_of_le_length (by omega)]
    refine h.uneven _ (u.drop (k + 1 - s.length)) (List.take_append_drop _ _).symm ?_ ?_
    · simp only [ne_eq, List.take_eq_nil_iff, h.ne_nil, or_false]
      omega
    · simp only [ne_eq, List.drop_eq_nil_iff]
      omega

theorem Balanced.head_slice (h : Balanced o c t i j) (hik : i ≤ k) :
    (slice t i k).head? = some o := by
  rw [slice, List.head?_take, if_neg (by omega), List.head?_drop, h.opens]

/-- A part of the stretch from its start on is a stretch that ends earlier. -/
theorem eq_slice (hu : slice t i j = v ++ w) (hv : v ≠ []) : v = slice t i (i + v.length - 1) := by
  have hpos := List.length_pos_iff.mpr hv
  have hlen := congrArg List.length hu
  rw [slice, List.length_take, List.length_append] at hlen
  have htake : v = (slice t i j).take v.length := by rw [hu, List.take_left]
  have hend : min v.length (j + 1 - i) = i + v.length - 1 + 1 - i := by omega
  rwa [slice, List.take_take, hend] at htake

theorem Balanced.region (h : Balanced o c t i j) (hoc : o ≠ c) : Region o c (slice t i j) := by
  refine ⟨h.head_slice (Nat.le_of_lt h.lt), h.even, fun v w hu hv hw ↦ ?_⟩
  have heq := eq_slice hu hv
  have hend : v.length + w.length ≤ j + 1 - i := by
    rw [← List.length_append, ← hu, slice, List.length_take]
    omega
  have hvpos := List.length_pos_iff.mpr hv
  have hwpos := List.length_pos_iff.mpr hw
  by_cases hone : v.length = 1
  · obtain ⟨e, rfl⟩ := List.length_eq_one_iff.mp hone
    have hhead := h.head_slice (k := i) (Nat.le_refl _)
    rw [hone, Nat.add_sub_cancel] at heq
    rw [← heq] at hhead
    obtain rfl := Option.some.inj hhead
    simp [hoc]
  · rw [heq]
    exact h.least _ (by omega) (by omega)

theorem balanced_iff (hoc : o ≠ c) : Balanced o c t i j ↔
    ∃ s u r, t = s ++ (u ++ r) ∧ s.length = i ∧ i + u.length = j + 1 ∧ Region o c u := by
  constructor
  · intro h
    have hlt := h.lt
    have hinside := h.inside
    refine ⟨t.take i, slice t i j, (t.drop i).drop (j + 1 - i), ?_, ?_, ?_, h.region hoc⟩
    · rw [slice, List.take_append_drop, List.take_append_drop]
    · rw [List.length_take]
      omega
    · rw [slice, List.length_take, List.length_drop]
      omega
  · rintro ⟨s, u, r, rfl, rfl, hlen, hu⟩
    have hbalanced := hu.balanced hoc s r
    rwa [hlen] at hbalanced

/-- What is balanced and starts in a region ends in it. -/
theorem Balanced.lt_of_region (h : Balanced o c (s ++ (u ++ r)) i j) (hoc : o ≠ c)
    (hu : Region o c u) (hi : s.length ≤ i) (hin : i < s.length + u.length) :
    j < s.length + u.length := by
  obtain ⟨s', u', r', heq, hs', hlen, hu'⟩ := (balanced_iff hoc).mp h
  obtain ⟨v, rfl⟩ : s <+: s' :=
    List.prefix_of_prefix_length_le ⟨_, rfl⟩ ⟨_, heq.symm⟩ (by omega)
  rw [List.append_assoc] at heq
  rw [List.length_append] at hs'
  have hend := hu.nested hu' hoc (List.append_cancel_left heq) (by omega)
  omega

theorem findClosing?_eq_some_iff (hoc : o ≠ c) :
    (ofChars o c).findClosing? t i = some j ↔ Balanced o c t i j := by
  rw [balanced_iff hoc, findClosing?, Option.map_eq_some_iff]
  constructor
  · rintro ⟨n, hn, rfl⟩
    obtain ⟨u, r, hdrop, hlen, hu⟩ := exists_region_of_closing? hoc hn
    have hpos := congrArg List.length hdrop
    rw [List.length_drop, List.length_append] at hpos
    refine ⟨t.take i, u, r, by rw [← hdrop, List.take_append_drop], ?_, by omega, hu⟩
    rw [List.length_take]
    omega
  · rintro ⟨s, u, r, rfl, rfl, hlen, hu⟩
    refine ⟨u.length - 1, by rw [List.drop_left, hu.closing? hoc], ?_⟩
    have hlong := hu.one_lt_length hoc
    omega

end Brackets

open Brackets

variable {o c : Char} {i j : Nat} {t : Text} {p : Nat × Nat} {ss : List Stretch}

theorem Cuts.balanced_of_mem (hoc : o ≠ c) (h : Cuts (ofChars o c) t ss) (s : Text)
    (hp : p ∈ Stretch.spansFrom s.length ss) : Balanced o c (s ++ t) p.1 p.2 ∧ s.length ≤ p.1 := by
  induction h generalizing s with
  | nil => simp [Stretch.spansFrom] at hp
  | @outside e t ss _ _ ih =>
    have hrest := ih (s ++ [e]) (by simpa [Stretch.spansFrom] using hp)
    rw [List.append_assoc, List.singleton_append, List.length_append] at hrest
    exact ⟨hrest.1, by have := hrest.2; omega⟩
  | @region b d x r ss hclosing _ _ _ ih =>
    have hsplit : b :: (x ++ d :: r) = (b :: (x ++ [d])) ++ r := by simp
    rw [hsplit] at hclosing ⊢
    have hu := region_of_closing? hoc hclosing (by simp)
    rw [Stretch.spansFrom, List.mem_cons] at hp
    rcases hp with rfl | hp
    · exact ⟨hu.balanced hoc s r, Nat.le_refl _⟩
    · have hrest := ih (s ++ b :: (x ++ [d])) (by rwa [List.length_append])
      rw [List.append_assoc, List.length_append] at hrest
      exact ⟨hrest.1, by have := hrest.2; omega⟩

theorem Cuts.exists_mem_of_balanced (hoc : o ≠ c) (h : Cuts (ofChars o c) t ss) (s : Text)
    (hij : Balanced o c (s ++ t) i j) (hi : s.length ≤ i) :
    ∃ p ∈ Stretch.spansFrom s.length ss, p.1 ≤ i ∧ j ≤ p.2 := by
  induction h generalizing s with
  | nil =>
    have hlt := hij.lt
    have hinside := hij.inside
    rw [List.append_nil] at hinside
    omega
  | @outside e t ss hnone _ ih =>
    by_cases heq : i = s.length
    · have hfound := (findClosing?_eq_some_iff hoc).mpr hij
      simp [findClosing?, heq, hnone] at hfound
    · obtain ⟨p, hp, hin⟩ := ih (s ++ [e]) (by simpa using hij) (by simp; omega)
      exact ⟨p, by simpa [Stretch.spansFrom] using hp, hin⟩
  | @region b d x r ss hclosing _ _ _ ih =>
    have hsplit : b :: (x ++ d :: r) = (b :: (x ++ [d])) ++ r := by simp
    rw [hsplit] at hclosing hij
    have hu := region_of_closing? hoc hclosing (by simp)
    generalize b :: (x ++ [d]) = u at hu hij ih ⊢
    by_cases hin : i < s.length + u.length
    · refine ⟨_, List.mem_cons_self, hi, ?_⟩
      have hend := hij.lt_of_region hoc hu hi hin
      simp only
      omega
    · obtain ⟨p, hp, hin'⟩ := ih (s ++ u) (by simpa using hij) (by rw [List.length_append]; omega)
      rw [List.length_append] at hp
      exact ⟨p, List.mem_cons_of_mem _ hp, hin'⟩

theorem Cuts.pairwise_spansFrom (hoc : o ≠ c) (h : Cuts (ofChars o c) t ss) (s : Text) :
    (Stretch.spansFrom s.length ss).Pairwise fun p q ↦ p.2 < q.1 := by
  induction h generalizing s with
  | nil => exact .nil
  | @outside e t ss _ _ ih => simpa [Stretch.spansFrom] using ih (s ++ [e])
  | @region b d x r ss _ _ _ hrest ih =>
    have hapart := ih (s ++ b :: (x ++ [d]))
    rw [List.length_append] at hapart
    refine .cons (fun q hq ↦ ?_) hapart
    have hle := (hrest.balanced_of_mem hoc (s ++ b :: (x ++ [d])) (by rwa [List.length_append])).2
    rw [List.length_append] at hle
    simp only [List.length_cons] at hle ⊢
    omega

namespace Brackets

theorem balanced_of_mem_regions (hoc : o ≠ c) (hp : p ∈ (ofChars o c).regions t) :
    Balanced o c t p.1 p.2 :=
  ((cuts_ofText _ t).balanced_of_mem hoc [] hp).1

theorem exists_mem_regions (hoc : o ≠ c) (h : Balanced o c t i j) :
    ∃ p ∈ (ofChars o c).regions t, p.1 ≤ i ∧ j ≤ p.2 :=
  (cuts_ofText _ t).exists_mem_of_balanced hoc [] h (Nat.zero_le _)

theorem pairwise_regions (hoc : o ≠ c) (t : Text) :
    ((ofChars o c).regions t).Pairwise fun p q ↦ p.2 < q.1 :=
  (cuts_ofText _ t).pairwise_spansFrom hoc []

/-- Two regions of the cut that share an index are the same. -/
theorem regions_eq_of_overlap (hoc : o ≠ c) {q : Nat × Nat} (hp : p ∈ (ofChars o c).regions t)
    (hq : q ∈ (ofChars o c).regions t) (hpq : p.1 ≤ q.2) (hqp : q.1 ≤ p.2) : p = q := by
  by_contra hne
  have hapart : ((ofChars o c).regions t).Pairwise fun p q ↦ p.2 < q.1 ∨ q.2 < p.1 :=
    (pairwise_regions hoc t).imp Or.inl
  have : Std.Symm fun p q : Nat × Nat ↦ p.2 < q.1 ∨ q.2 < p.1 := ⟨fun _ _ h ↦ h.symm⟩
  rcases hapart.forall hp hq hne with h | h <;> omega

theorem mem_regions_iff (hoc : o ≠ c) :
    (i, j) ∈ (ofChars o c).regions t ↔ Outermost o c t i j := by
  constructor
  · intro hp
    have hij := balanced_of_mem_regions hoc hp
    refine ⟨hij, fun i' j' hij' hi hj ↦ ?_⟩
    obtain ⟨q, hq, hi', hj'⟩ := exists_mem_regions hoc hij'
    have hlt := hij.lt
    have hlt' := hij'.lt
    obtain rfl := regions_eq_of_overlap hoc hp hq (by simp only; omega) (by simp only; omega)
    simp only at hi' hj'
    omega
  · rintro ⟨hij, hmax⟩
    obtain ⟨⟨i', j'⟩, hq, hi, hj⟩ := exists_mem_regions hoc hij
    obtain ⟨rfl, rfl⟩ := hmax i' j' (balanced_of_mem_regions hoc hq) hi hj
    exact hq

/-- The search for the closing bracket gives the balanced index, if there is one, and a text is cut
from left to right at the balanced pairs that lie in no other one. These lie apart, and no opening
bracket outside them is ever balanced. -/
theorem regions_outermost (hoc : o ≠ c) (t : Text) :
    (∀ i j, (ofChars o c).findClosing? t i = some j ↔ Balanced o c t i j) ∧
    (∀ i, (ofChars o c).findClosing? t i = none ↔ ¬ ∃ j, Balanced o c t i j) ∧
    (∀ i j, (i, j) ∈ (ofChars o c).regions t ↔ Outermost o c t i j) ∧
    ((ofChars o c).regions t).Pairwise (fun p q ↦ p.1 < q.1) ∧
    ((ofChars o c).regions t).Pairwise (fun p q ↦ p.2 < q.1) ∧
    ∀ i, t[i]? = some o → (∀ p ∈ (ofChars o c).regions t, i < p.1 ∨ p.2 < i) →
      ∀ j, ¬ Balanced o c t i j := by
  refine ⟨fun i j ↦ findClosing?_eq_some_iff hoc, fun i ↦ ?_, fun i j ↦ mem_regions_iff hoc, ?_,
    pairwise_regions hoc t, fun i _ hout j hij ↦ ?_⟩
  · rw [Option.eq_none_iff_forall_ne_some]
    simp [findClosing?_eq_some_iff hoc]
  · refine (pairwise_regions hoc t).imp_of_mem fun hp _ hpq ↦ ?_
    have hlt := (balanced_of_mem_regions hoc hp).lt
    omega
  · obtain ⟨p, hp, hi, hj⟩ := exists_mem_regions hoc hij
    have hlt := hij.lt
    have hpout := hout p hp
    omega

/-- The first bracket never closes, the next two do, one inside the other, and the last one closes
nothing. -/
theorem regions_outermost_nested :
    let t := Text.of "[a[b[c]]"
    '[' ≠ ']' ∧ square.findClosing? t 0 = none ∧ (¬ ∃ j, Balanced '[' ']' t 0 j) ∧
      square.regions t = [(2, 7)] ∧ Outermost '[' ']' t 2 7 ∧ ¬ Outermost '[' ']' t 4 6 := by
  intro t
  obtain ⟨-, hnone, hregions, -⟩ := regions_outermost (o := '[') (c := ']') (by decide) t
  exact ⟨by decide, by decide, (hnone 0).mp (by decide), by decide, (hregions 2 7).mp (by decide),
    fun h ↦ absurd ((hregions 4 6).mpr h) (by decide)⟩

def Alike (b : Brackets) (e e' : Char) : Prop := b.opens e' = b.opens e ∧ b.closes e' = b.closes e

variable {b : Brackets} {t' : Text}

theorem forall₂_alike_refl (b : Brackets) (t : Text) : List.Forall₂ b.Alike t t :=
  List.forall₂_same.mpr fun _ _ ↦ ⟨rfl, rfl⟩

theorem closingAfter?_congr (h : List.Forall₂ b.Alike t t') (d : Nat) :
    b.closingAfter? d t' = b.closingAfter? d t := by
  induction h generalizing d with
  | nil => rfl
  | cons hcc _ ih =>
    obtain ⟨hopens, hcloses⟩ := hcc
    rw [closingAfter?, closingAfter?, hopens, hcloses, ih, ih, ih]

theorem closing?_congr (h : List.Forall₂ b.Alike t t') : b.closing? t' = b.closing? t := by
  cases h with
  | nil => rfl
  | cons hcc h => rw [closing?, closing?, hcc.1, closingAfter?_congr h]

theorem spansFrom_ofTextFrom_congr (h : List.Forall₂ b.Alike t t') (n i : Nat) :
    Stretch.spansFrom i (Stretch.ofTextFrom b n t') =
      Stretch.spansFrom i (Stretch.ofTextFrom b n t) := by
  induction h generalizing n i with
  | nil => cases n <;> rfl
  | cons hcc h ih =>
    cases n with
    | succ n => exact ih n i
    | zero =>
      have hlen := h.length_eq
      rw [Stretch.ofTextFrom, Stretch.ofTextFrom, closing?_congr (.cons hcc h)]
      split <;> simp [Stretch.spansFrom, ih, hlen]

/-- Where the brackets stand decides where the regions do. -/
theorem regions_congr (h : List.Forall₂ b.Alike t t') : b.regions t' = b.regions t :=
  spansFrom_ofTextFrom_congr h 0 0

end Brackets

end DiagramRepair
