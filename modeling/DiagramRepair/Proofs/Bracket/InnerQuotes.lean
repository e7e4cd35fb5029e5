import DiagramRepair.Proofs.Bracket.Balanced

namespace DiagramRepair

open Brackets Pattern Text

variable {c : Char} {i j k n : Nat} {P : Nat → Prop} {r r' s t t' u v w x y : Text}

structure QuotedLabel (t : Text) (i j : Nat) : Prop where
  balanced : Balanced '[' ']' t i j
  opening : t[i + 1]? = some '"'
  closing : t[j - 1]? = some '"'
  apart : i + 1 < j - 1

def InnerQuote (t : Text) (k : Nat) : Prop :=
  t[k]? = some '"' ∧ ∃ i j, QuotedLabel t i j ∧ i + 1 < k ∧ k < j - 1

/-- A text that starts at index `n`, and what is left of it without the characters at the indices of
which the property holds. -/
inductive Drops (P : Nat → Prop) : Nat → Text → Text → Prop
  | nil (n : Nat) : Drops P n [] []
  | drop {n : Nat} {c : Char} {t t' : Text} : P n → Drops P (n + 1) t t' → Drops P n (c :: t) t'
  | keep {n : Nat} {c : Char} {t t' : Text} :
      ¬ P n → Drops P (n + 1) t t' → Drops P n (c :: t) (c :: t')

def label (x : Text) : Text := '[' :: '"' :: (x ++ ['"', ']'])

theorem length_label (x : Text) : (label x).length = x.length + 4 := by
  simp [label]

theorem exists_of_quoted_ends (hfirst : u.head? = some '"') (hlast : u.getLast? = some '"')
    (hlong : 2 ≤ u.length) : ∃ x, u = '"' :: (x ++ ['"']) := by
  obtain ⟨u, rfl⟩ := List.head?_eq_some_iff.mp hfirst
  obtain ⟨x, e, rfl⟩ := (List.eq_nil_or_concat' u).resolve_left (by rintro rfl; simp at hlong)
  rw [← List.cons_append, List.getLast?_concat] at hlast
  exact ⟨x, by rw [Option.some.inj hlast]⟩

theorem quotedLabel?_eq_some_iff : quotedLabel? t = some n ↔
    ∃ x r, t = label x ++ r ∧ n = x.length + 3 ∧ Region '[' ']' (label x) := by
  constructor
  · intro h
    obtain ⟨x, r, rfl, rfl⟩ := exists_of_quotedLabel? h
    have htext : '[' :: '"' :: (x ++ '"' :: ']' :: r) = label x ++ r := by simp [label]
    rw [quotedLabel?] at h
    split at h
    · rename_i m hm
      split_ifs at h
      obtain rfl := Option.some.inj h
      rw [htext] at hm
      exact ⟨x, r, htext, rfl, region_of_closing? (by decide) hm (length_label x)⟩
    · simp at h
  · rintro ⟨x, r, rfl, rfl, h⟩
    have hclosing := h.closing? (by decide) r
    rw [length_label] at hclosing
    have htext : label x ++ r = '[' :: '"' :: (x ++ '"' :: ']' :: r) := by simp [label]
    rw [htext] at hclosing ⊢
    simp [quotedLabel?, show square.closing? _ = _ from hclosing]

theorem quotedLabel?_append (h : quotedLabel? t = some n) (r : Text) :
    quotedLabel? (t ++ r) = some n := by
  obtain ⟨x, r', rfl, hn, hx⟩ := quotedLabel?_eq_some_iff.mp h
  exact quotedLabel?_eq_some_iff.mpr ⟨x, r' ++ r, by rw [List.append_assoc], hn, hx⟩

theorem count_dropQuotes (hc : c ≠ '"') (t : Text) : (dropQuotes t).count c = t.count c :=
  List.count_filter (by simpa using hc)

theorem dropQuotes_append (u v : Text) : dropQuotes (u ++ v) = dropQuotes u ++ dropQuotes v :=
  List.filter_append u v

theorem dropQuotes_dropQuotes (t : Text) : dropQuotes (dropQuotes t) = dropQuotes t := by
  simp [dropQuotes, List.filter_filter]

/-- Whether a text is a region depends on its first and last bracket and on what is no quote. -/
theorem region_of_dropQuotes (h : Region '[' ']' u)
    (hquotes : dropQuotes ('[' :: (y ++ [']'])) = dropQuotes u) :
    Region '[' ']' ('[' :: (y ++ [']'])) := by
  have hcount : ∀ {v w : Text} (c : Char), c ≠ '"' → dropQuotes v = dropQuotes w →
      v.count c = w.count c := fun c hc hvw ↦ by
    rw [← count_dropQuotes hc, hvw, count_dropQuotes hc]
  refine ⟨rfl, ?_, fun v w hu hv hw ↦ ?_⟩
  · rw [hcount _ (by decide) hquotes, hcount _ (by decide) hquotes, h.even]
  · rw [hu] at hquotes
    obtain ⟨v', w', rfl, hv', hw'⟩ := List.filter_eq_append_iff.mp
      (hquotes.symm.trans (List.filter_append v w))
    rw [← hcount _ (by decide) hv', ← hcount _ (by decide) hv']
    refine h.uneven v' w' rfl ?_ ?_
    · rintro rfl
      obtain ⟨d, v, rfl⟩ := List.exists_cons_of_ne_nil hv
      obtain rfl := (List.cons.inj hu).1
      simp at hv'
    · rintro rfl
      obtain ⟨w, d, rfl⟩ := (List.eq_nil_or_concat' w).resolve_left hw
      rw [← List.append_assoc, ← List.cons_append] at hu
      obtain rfl : ']' = d := by simpa using (List.append_inj' hu rfl).2
      simp at hw'

theorem region_label_dropQuotes (h : Region '[' ']' (label x)) :
    Region '[' ']' (label (dropQuotes x)) := by
  have hquotes : dropQuotes (label (dropQuotes x)) = dropQuotes (label x) := by
    simp [label, dropQuotes, List.filter_filter]
  have hlabel : label (dropQuotes x) = '[' :: ('"' :: (dropQuotes x ++ ['"']) ++ [']']) := by
    simp [label]
  rw [hlabel] at hquotes ⊢
  exact region_of_dropQuotes h hquotes

/-- The texts on both sides from left to right: a label loses its inner quotes, and a character with
which no label starts is kept. -/
inductive Strips : Text → Text → Prop
  | nil : Strips [] []
  | keep {c : Char} {t t' : Text} :
      quotedLabel? (c :: t) = none → Strips t t' → Strips (c :: t) (c :: t')
  | label {x r r' : Text} : Region '[' ']' (label x) → Strips r r' →
      Strips (label x ++ r) (label (dropQuotes x) ++ r')

theorem stripInnerQuotes_cons (h : quotedLabel? (c :: t) = none) :
    stripInnerQuotes (c :: t) = c :: stripInnerQuotes t := by
  rw [stripInnerQuotes, stripInnerQuotesFrom, h]
  rfl

theorem stripInnerQuotes_label (h : Region '[' ']' (label x)) (r : Text) :
    stripInnerQuotes (label x ++ r) = label (dropQuotes x) ++ stripInnerQuotes r := by
  have hfound := quotedLabel?_eq_some_iff.mpr ⟨x, r, rfl, rfl, h⟩
  have hskip := stripInnerQuotesFrom_skip ('"' :: (x ++ ['"', ']'])) r
    (by simp : ('"' :: (x ++ ['"', ']'])).length = x.length + 3)
  have htake : (label x ++ r).take (x.length + 3 + 1) = label x := by
    rw [← length_label x, List.take_left]
  have hplain : plainLabel (label x) = label (dropQuotes x) := by
    simp [plainLabel, label]
  have htext : label x ++ r = '[' :: ('"' :: (x ++ ['"', ']']) ++ r) := rfl
  rw [htext] at hfound htake ⊢
  rw [stripInnerQuotes, stripInnerQuotesFrom, hfound]
  simp only [htake, hplain, hskip]
  rfl

theorem strips_stripInnerQuotes (t : Text) : Strips t (stripInnerQuotes t) := by
  induction hn : t.length using Nat.strongRecOn generalizing t with
  | _ n ih =>
    cases t with
    | nil => exact .nil
    | cons c t =>
      cases hc : quotedLabel? (c :: t) with
      | none =>
        rw [stripInnerQuotes_cons hc]
        exact .keep hc (ih t.length (by simp [← hn]) t rfl)
      | some m =>
        obtain ⟨x, r, ht, -, hx⟩ := quotedLabel?_eq_some_iff.mp hc
        rw [ht] at hn ⊢
        rw [stripInnerQuotes_label hx]
        rw [List.length_append, length_label] at hn
        exact .label hx (ih r.length (by omega) r rfl)

theorem Strips.eq (h : Strips t t') : t' = stripInnerQuotes t := by
  induction h with
  | nil => rfl
  | keep hc _ ih => rw [stripInnerQuotes_cons hc, ih]
  | label hx _ ih => rw [stripInnerQuotes_label hx, ih]

theorem Strips.dropQuotes_eq (h : Strips t t') : dropQuotes t' = dropQuotes t := by
  induction h with
  | nil => rfl
  | @keep c t t' _ _ ih =>
    rw [← List.singleton_append, dropQuotes_append, ih, ← dropQuotes_append, List.singleton_append]
  | label _ _ ih => simpa [dropQuotes, DiagramRepair.label, List.filter_filter] using ih

/-- The first character is kept, and so is the last. -/
theorem Strips.head?_eq (h : Strips t t') : t'.head? = t.head? := by
  cases h <;> rfl

theorem Strips.getLast?_eq (h : Strips t t') : t'.getLast? = t.getLast? := by
  induction h with
  | nil => rfl
  | @keep c t t' _ _ ih => rw [List.getLast?_cons, List.getLast?_cons, ih]
  | @label x r r' _ _ ih =>
    have hend : ∀ y, (DiagramRepair.label y).getLast? = some ']' := fun y ↦ by
      simp [DiagramRepair.label, List.getLast?_cons]
    rw [List.getLast?_append, List.getLast?_append, ih, hend, hend]

theorem Strips.length_le (h : Strips t t') : t'.length ≤ t.length := by
  induction h with
  | nil => exact Nat.le_refl _
  | keep _ _ ih => exact Nat.succ_le_succ ih
  | @label x _ _ _ _ ih =>
    have hx : (dropQuotes x).length ≤ x.length := List.length_filter_le _ _
    rw [List.length_append, List.length_append, length_label, length_label]
    omega

/-- A closing bracket that no bracket of the stripped text before it has opened is closed by none of
the text that was stripped. -/
theorem Strips.split (h : Strips t t') (ht' : t' = y ++ ']' :: r')
    (hy : ∀ v w, y = v ++ w → w.count '[' ≤ w.count ']') :
    ∃ x r, t = x ++ ']' :: r ∧ Strips x y ∧ Strips r r' := by
  induction h generalizing y with
  | nil => simp at ht'
  | @keep c t t' hc hrest ih =>
    cases y with
    | nil =>
      obtain ⟨rfl, rfl⟩ := List.cons.inj ht'
      exact ⟨[], t, rfl, .nil, hrest⟩
    | cons d y =>
      obtain ⟨rfl, htail⟩ := List.cons.inj ht'
      obtain ⟨x, r, rfl, hx, hr⟩ := ih htail fun v w hvw ↦ hy (c :: v) w (by rw [hvw]; rfl)
      refine ⟨c :: x, r, rfl, .keep ?_ hx, hr⟩
      rw [Option.eq_none_iff_forall_ne_some] at hc ⊢
      exact fun n hn ↦ hc n (quotedLabel?_append hn _)
  | @label x r₁ r₁' hx hrest ih =>
    have hlabel := region_label_dropQuotes hx
    rcases List.append_eq_append_iff.mp ht' with ⟨w, rfl, hw⟩ | ⟨w, hw, hr⟩
    · obtain ⟨z, r, rfl, hz, hr⟩ := ih hw fun v w' hvw ↦
        hy (DiagramRepair.label (dropQuotes x) ++ v) w' (by rw [hvw, List.append_assoc])
      exact ⟨DiagramRepair.label x ++ z, r, by simp, .label hx hz, hr⟩
    · by_cases hnil : w = []
      · obtain ⟨z, r, rfl, hz, hr⟩ := ih (y := []) (by simpa [hnil] using hr.symm) fun v w' hvw ↦ by
          simp [(List.append_eq_nil_iff.mp hvw.symm).2]
        obtain rfl : y = DiagramRepair.label (dropQuotes x) := by simpa [hnil] using hw.symm
        have hstrips := Strips.label hx hz
        rw [List.append_nil] at hstrips
        exact ⟨DiagramRepair.label x ++ z, r, by simp, hstrips, hr⟩
      · -- The closing bracket would stand in the label, where one more bracket is open.
        have hne : y ≠ [] := by
          rintro rfl
          obtain ⟨d, w, rfl⟩ := List.exists_cons_of_ne_nil hnil
          obtain rfl := (List.cons.inj hr).1
          simp [DiagramRepair.label] at hw
        have hlt := hlabel.count_lt (by decide) hw hne hnil
        have hle := hy [] y rfl
        omega

theorem quotedLabel?_of_strips (h : Strips t t') (hc : quotedLabel? (c :: t) = none) :
    quotedLabel? (c :: t') = none := by
  rw [Option.eq_none_iff_forall_ne_some]
  intro n hn
  obtain ⟨y, r', ht', -, hy⟩ := quotedLabel?_eq_some_iff.mp hn
  obtain ⟨rfl, htail⟩ := List.cons.inj ht'
  have hsplit : t' = '"' :: (y ++ ['"']) ++ ']' :: r' := by rw [htail]; simp
  have hsuffix : ∀ v w, '"' :: (y ++ ['"']) = v ++ w → w.count '[' ≤ w.count ']' := by
    intro v w hvw
    have hlabel : label y = ('[' :: v) ++ (w ++ [']']) := by
      rw [List.cons_append, ← List.append_assoc, ← hvw]
      simp [label]
    have hlt := hy.count_lt (by decide) hlabel (by simp) (by simp)
    have heven := hy.even
    rw [hlabel, List.count_append, List.count_append] at heven
    simp at hlt heven
    omega
  obtain ⟨x, r, rfl, hx, -⟩ := h.split hsplit hsuffix
  have hfirst : x.head? = some '"' := hx.head?_eq.symm
  have hlast : x.getLast? = some '"' := by
    rw [← hx.getLast?_eq, ← List.cons_append, List.getLast?_concat]
  have hlong : 2 ≤ x.length := by
    have hle := hx.length_le
    simp only [List.length_cons, List.length_append, List.length_nil] at hle
    omega
  obtain ⟨x, rfl⟩ := exists_of_quoted_ends hfirst hlast hlong
  have hregion : Region '[' ']' (label x) := by
    have hquotes : dropQuotes ('[' :: ('"' :: (x ++ ['"']) ++ [']'])) = dropQuotes (label y) := by
      have hinner := hx.dropQuotes_eq
      simp only [dropQuotes, label] at hinner ⊢
      simp_all
    simpa [label] using region_of_dropQuotes hy hquotes
  have hfound := quotedLabel?_eq_some_iff.mpr ⟨x, r, rfl, rfl, hregion⟩
  simp [label] at hfound
  simp [hfound] at hc

theorem Strips.again (h : Strips t t') : Strips t' t' := by
  induction h with
  | nil => exact .nil
  | keep hc hrest ih => exact .keep (quotedLabel?_of_strips hrest hc) ih
  | @label x r r' hx _ ih =>
    have hagain := Strips.label (region_label_dropQuotes hx) ih
    rwa [dropQuotes_dropQuotes] at hagain

theorem stripInnerQuotes_stripInnerQuotes (t : Text) :
    stripInnerQuotes (stripInnerQuotes t) = stripInnerQuotes t :=
  (strips_stripInnerQuotes t).again.eq.symm

theorem getElem?_append_add (s t : Text) (k : Nat) : (s ++ t)[s.length + k]? = t[k]? := by
  rw [List.getElem?_append_right (Nat.le_add_right _ _), Nat.add_sub_cancel_left]

theorem quotedLabel_iff : QuotedLabel t i j ↔
    ∃ s x r, t = s ++ (label x ++ r) ∧ s.length = i ∧ i + x.length + 3 = j ∧
      Region '[' ']' (label x) := by
  constructor
  · rintro ⟨hij, hopening, hclosing, hapart⟩
    obtain ⟨s, u, r, rfl, rfl, hlen, hu⟩ := (balanced_iff (by decide)).mp hij
    obtain ⟨y, rfl⟩ := hu.exists_eq (by decide)
    simp only [List.length_cons, List.length_append, List.length_nil] at hlen
    have hend : j - 1 = s.length + (y.length - 1 + 1) := by omega
    have hinner : ∀ k < y.length, ('[' :: (y ++ [']']) ++ r)[k + 1]? = y[k]? := fun k hk ↦ by
      rw [List.cons_append, List.getElem?_cons_succ, List.append_assoc,
        List.getElem?_append_left hk]
    rw [getElem?_append_add, hinner 0 (by omega), ← List.head?_eq_getElem?] at hopening
    rw [hend, getElem?_append_add, hinner _ (by omega), ← List.getLast?_eq_getElem?] at hclosing
    obtain ⟨x, rfl⟩ := exists_of_quoted_ends hopening hclosing (by omega)
    simp only [List.length_cons, List.length_append, List.length_nil] at hlen
    have hlabel : '[' :: ('"' :: (x ++ ['"']) ++ [']']) = label x := by simp [label]
    rw [hlabel] at hu ⊢
    exact ⟨s, x, r, rfl, rfl, by omega, hu⟩
  · rintro ⟨s, x, r, rfl, rfl, rfl, hx⟩
    have hij := hx.balanced (by decide) s r
    have hend : s.length + (label x).length - 1 = s.length + x.length + 3 := by
      rw [length_label]
      omega
    have hbefore : s.length + x.length + 3 - 1 = s.length + (x.length + 2) := by omega
    rw [hend] at hij
    refine ⟨hij, ?_, ?_, by omega⟩
    · rw [getElem?_append_add]
      rfl
    · rw [hbefore, getElem?_append_add]
      simp [label]

theorem Drops.dropQuotes (hP : ∀ m c, x[m]? = some c → (P (n + m) ↔ c = '"'))
    (h : Drops P (n + x.length) t t') : Drops P n (x ++ t) (dropQuotes x ++ t') := by
  induction x generalizing n with
  | nil => exact h
  | cons c x ih =>
    have hrest : Drops P (n + 1) (x ++ t) (Text.dropQuotes x ++ t') := by
      refine ih (fun m d hd ↦ ?_) (by simpa [Nat.add_assoc, Nat.add_comm 1] using h)
      rw [Nat.add_assoc, Nat.add_comm 1]
      exact hP (m + 1) d (by simpa using hd)
    have hfirst := hP 0 c rfl
    by_cases hc : c = '"'
    · have hdrop : Text.dropQuotes (c :: x) = Text.dropQuotes x := by simp [Text.dropQuotes, hc]
      rw [hdrop]
      exact .drop (hfirst.mpr hc) hrest
    · have hkeep : Text.dropQuotes (c :: x) = c :: Text.dropQuotes x := by
        simp [Text.dropQuotes, hc]
      rw [hkeep]
      exact .keep (fun h ↦ hc (hfirst.mp h)) hrest

theorem Drops.length_le (h : Drops P n t t') : t'.length ≤ t.length := by
  induction h with
  | nil => exact Nat.le_refl _
  | drop _ _ ih => exact Nat.le_succ_of_le ih
  | keep _ _ ih => exact Nat.succ_le_succ ih

theorem Drops.not_of_self (h : Drops P n t t') (hlen : t.length ≤ t'.length) (hk : k < t.length) :
    ¬ P (n + k) := by
  induction h generalizing k with
  | nil => simp at hk
  | drop _ hrest _ =>
    have hshort := hrest.length_le
    simp only [List.length_cons] at hlen
    omega
  | @keep n c t t' hn _ ih =>
    cases k with
    | zero => exact hn
    | succ k =>
      have hrest := ih (by simpa using hlen) (by simpa using hk)
      rwa [Nat.add_assoc, Nat.add_comm 1] at hrest

def LabelsEnd (s t : Text) : Prop :=
  ∀ i j, QuotedLabel (s ++ t) i j → i < s.length → j < s.length

theorem LabelsEnd.snoc (h : LabelsEnd s (c :: t)) (hc : quotedLabel? (c :: t) = none) :
    LabelsEnd (s ++ [c]) t := by
  intro i j hij hi
  rw [List.append_assoc, List.singleton_append] at hij
  rw [List.length_append, List.length_singleton] at hi ⊢
  by_cases heq : i = s.length
  · obtain ⟨s', x, r, ht, hs', -, hx⟩ := quotedLabel_iff.mp hij
    obtain ⟨rfl, htail⟩ := List.append_inj ht (heq.symm.trans hs'.symm)
    have hfound := quotedLabel?_eq_some_iff.mpr ⟨x, r, htail, rfl, hx⟩
    simp [hfound] at hc
  · have hj := h i j hij (by omega)
    omega

theorem LabelsEnd.append (h : LabelsEnd s (label x ++ t)) (hx : Region '[' ']' (label x)) :
    LabelsEnd (s ++ label x) t := by
  intro i j hij hi
  rw [List.append_assoc] at hij
  rw [List.length_append] at hi ⊢
  by_cases hin : i < s.length
  · have hj := h i j hij hin
    omega
  · exact hij.balanced.lt_of_region (by decide) hx (by omega) hi

theorem LabelsEnd.not_innerQuote (h : LabelsEnd s t) (hs : s.length ≤ k)
    (hk : k ≤ s.length + 1) : ¬ InnerQuote (s ++ t) k := by
  rintro ⟨-, i, j, hij, hi, hj⟩
  have hend := h i j hij (by omega)
  omega

/-- The last two characters of a label are none of its inner quotes, nor of another label. -/
theorem LabelsEnd.innerQuote_lt (h : LabelsEnd s (label x ++ t)) (hx : Region '[' ']' (label x))
    (hquote : InnerQuote (s ++ (label x ++ t)) k) (hk : k < s.length + x.length + 4) :
    k < s.length + x.length + 2 := by
  obtain ⟨-, i, j, hij, hi, hj⟩ := hquote
  have hlen := length_label x
  by_cases hin : i < s.length
  · have hend := h i j hij hin
    omega
  · have hend := hij.balanced.lt_of_region (by decide) hx (by omega) (by omega)
    omega

theorem innerQuote_label_iff (hx : Region '[' ']' (label x)) (s r : Text) {m : Nat}
    (hc : x[m]? = some c) :
    InnerQuote (s ++ (label x ++ r)) (s.length + 1 + 1 + m) ↔ c = '"' := by
  have hm := (List.getElem?_eq_some_iff.mp hc).1
  have hplace : (s ++ (label x ++ r))[s.length + 1 + 1 + m]? = some c := by
    have hindex : s.length + 1 + 1 + m = s.length + (m + 2) := by omega
    rw [hindex, getElem?_append_add, ← hc]
    simp [label, List.getElem?_append_left, hm]
  constructor
  · rintro ⟨hquote, -⟩
    exact Option.some.inj (hplace.symm.trans hquote)
  · rintro rfl
    exact ⟨hplace, s.length, s.length + x.length + 3,
      quotedLabel_iff.mpr ⟨s, x, r, rfl, rfl, rfl, hx⟩, by omega, by omega⟩

/-- Stripping drops the inner quotes of labels and nothing else. -/
theorem Strips.drops (h : Strips t t') (hs : LabelsEnd s t) :
    Drops (InnerQuote (s ++ t)) s.length t t' := by
  induction h generalizing s with
  | nil => exact .nil _
  | @keep c t t' hc _ ih =>
    have hrest := ih (hs.snoc hc)
    rw [List.append_assoc, List.singleton_append, List.length_append] at hrest
    exact .keep (hs.not_innerQuote (by omega) (by omega)) hrest
  | @label x r r' hx _ ih =>
    have hrest := ih (hs.append hx)
    rw [List.append_assoc, List.length_append, length_label] at hrest
    have hinner : Drops (InnerQuote (s ++ (DiagramRepair.label x ++ r))) (s.length + 1 + 1)
        (x ++ '"' :: ']' :: r) (dropQuotes x ++ '"' :: ']' :: r') := by
      refine Drops.dropQuotes (fun m c hc ↦ innerQuote_label_iff hx s r hc) (.keep ?_ (.keep ?_ ?_))
      · intro hquote
        have hlt := hs.innerQuote_lt hx hquote (by omega)
        omega
      · intro hquote
        have hlt := hs.innerQuote_lt hx hquote (by omega)
        omega
      · have hindex : s.length + 1 + 1 + x.length + 1 + 1 = s.length + (x.length + 4) := by omega
        rwa [hindex]
    have htext : ∀ y z : Text, DiagramRepair.label y ++ z = '[' :: '"' :: (y ++ '"' :: ']' :: z) :=
      fun y z ↦ by simp [DiagramRepair.label]
    have houter := Drops.keep (c := '[') (hs.not_innerQuote (Nat.le_refl _) (Nat.le_succ _))
      (.keep (c := '"') (hs.not_innerQuote (Nat.le_succ _) (Nat.le_refl _)) hinner)
    rwa [← htext, ← htext] at houter

theorem drops_stripInnerQuotes (t : Text) : Drops (InnerQuote t) 0 t (stripInnerQuotes t) :=
  (strips_stripInnerQuotes t).drops (s := []) fun _ _ _ hi ↦ absurd hi (Nat.not_lt_zero _)

/-- What is no quote can be picked from a text before or after its quotes are dropped. -/
theorem filter_dropQuotes {p : CharClass} (hp : p '"' = false) (t : Text) :
    (dropQuotes t).filter p = t.filter p := by
  rw [dropQuotes, List.filter_filter]
  refine List.filter_congr fun c _ ↦ ?_
  by_cases hc : c = '"' <;> simp [hc, hp]

/-- Dropping the quotes inside labels drops exactly these, so no bracket goes, none is left, and a
second run changes nothing. -/
theorem stripInnerQuotes_exact (t : Text) :
    Drops (InnerQuote t) 0 t (stripInnerQuotes t) ∧
    (stripInnerQuotes t).filter (among "[]") = t.filter (among "[]") ∧
    (∀ k, ¬ InnerQuote (stripInnerQuotes t) k) ∧
    stripInnerQuotes (stripInnerQuotes t) = stripInnerQuotes t := by
  have hagain := stripInnerQuotes_stripInnerQuotes t
  refine ⟨drops_stripInnerQuotes t, ?_, fun k hk ↦ ?_, hagain⟩
  · rw [← filter_dropQuotes (by decide), (strips_stripInnerQuotes t).dropQuotes_eq,
      filter_dropQuotes (by decide)]
  · have hnone := drops_stripInnerQuotes (stripInnerQuotes t)
    rw [hagain] at hnone
    have hlt := (List.getElem?_eq_some_iff.mp hk.1).1
    have hno := hnone.not_of_self (Nat.le_refl _) hlt
    rw [Nat.zero_add] at hno
    exact hno hk

end DiagramRepair
