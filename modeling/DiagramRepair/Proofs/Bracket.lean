import DiagramRepair.Bracket
import DiagramRepair.Proofs.Pattern.Search
import Mathlib.Tactic.SplitIfs

namespace DiagramRepair

open Pattern

variable {b : Brackets} {t : Text} {n : Nat}

namespace Brackets

theorem exists_of_closingAfter? {depth : Nat} (h : b.closingAfter? depth t = some n) :
    ∃ x c r, t = x ++ c :: r ∧ b.closes c ∧ x.length = n := by
  induction t generalizing depth n with
  | nil => simp [closingAfter?] at h
  | cons c t ih =>
    rw [closingAfter?] at h
    split_ifs at h with hopen hclose hdepth
    · obtain ⟨m, hm, rfl⟩ := Option.map_eq_some_iff.mp h
      obtain ⟨x, d, r, rfl, hd, rfl⟩ := ih hm
      exact ⟨c :: x, d, r, rfl, hd, rfl⟩
    · exact ⟨[], c, t, rfl, hclose, by simpa using h⟩
    · obtain ⟨m, hm, rfl⟩ := Option.map_eq_some_iff.mp h
      obtain ⟨x, d, r, rfl, hd, rfl⟩ := ih hm
      exact ⟨c :: x, d, r, rfl, hd, rfl⟩
    · obtain ⟨m, hm, rfl⟩ := Option.map_eq_some_iff.mp h
      obtain ⟨x, d, r, rfl, hd, rfl⟩ := ih hm
      exact ⟨c :: x, d, r, rfl, hd, rfl⟩

theorem exists_of_closing? (h : b.closing? t = some n) :
    ∃ o x c r, t = o :: (x ++ c :: r) ∧ b.opens o ∧ b.closes c ∧ x.length + 1 = n := by
  cases t with
  | nil => simp [closing?] at h
  | cons o t =>
    rw [closing?] at h
    split_ifs at h with hopen
    obtain ⟨m, hm, rfl⟩ := Option.map_eq_some_iff.mp h
    obtain ⟨x, c, r, rfl, hc, rfl⟩ := exists_of_closingAfter? hm
    exact ⟨o, x, c, r, rfl, hopen, hc, rfl⟩

theorem square_opens {c : Char} : square.opens c ↔ c = '[' := by simp [square, ofChars]

theorem square_closes {c : Char} : square.closes c ↔ c = ']' := by simp [square, ofChars]

theorem closingAfter?_run {u : Text} (hopen : '[' ∉ u) (hclose : ']' ∉ u) (depth : Nat) (t : Text) :
    square.closingAfter? depth (u ++ t) = (square.closingAfter? depth t).map (u.length + ·) := by
  induction u with
  | nil => simp
  | cons c u ih =>
    rw [List.mem_cons, not_or] at hopen hclose
    have hc : square.opens c = false ∧ square.closes c = false := by
      simp [square, ofChars, Ne.symm hopen.1, Ne.symm hclose.1]
    rw [List.cons_append, closingAfter?, hc.1, hc.2, ih hopen.2 hclose.2]
    simp [Function.comp_def, Nat.add_right_comm]

theorem map_length_append (x y : Text) (n : Option Nat) :
    (n.map (y.length + ·)).map (x.length + ·) = n.map ((x ++ y).length + ·) := by
  simp [Function.comp_def, Nat.add_assoc]

end Brackets

inductive Cuts (b : Brackets) : Text → List Stretch → Prop
  | nil : Cuts b [] []
  | outside {c : Char} {t : Text} {ss : List Stretch} :
      b.closing? (c :: t) = none → Cuts b t ss → Cuts b (c :: t) (.outside c :: ss)
  | region {o c : Char} {x r : Text} {ss : List Stretch} :
      b.closing? (o :: (x ++ c :: r)) = some (x.length + 1) → b.opens o → b.closes c →
      Cuts b r ss → Cuts b (o :: (x ++ c :: r)) (.region (o :: (x ++ [c])) :: ss)

theorem ofTextFrom_skip (b : Brackets) (u r : Text) (hn : u.length = n) :
    Stretch.ofTextFrom b n (u ++ r) = Stretch.ofTextFrom b 0 r := by
  induction u generalizing n with
  | nil =>
    subst hn
    rfl
  | cons c u ih =>
    subst hn
    exact ih rfl

theorem cuts_ofText (b : Brackets) (t : Text) : Cuts b t (Stretch.ofText b t) := by
  rw [Stretch.ofText]
  induction hn : t.length using Nat.strongRecOn generalizing t with
  | _ n ih =>
    cases t with
    | nil =>
      rw [Stretch.ofTextFrom]
      exact .nil
    | cons c t =>
      rw [Stretch.ofTextFrom]
      cases hc : b.closing? (c :: t) with
      | none => exact .outside hc (ih t.length (by simp [← hn]) t rfl)
      | some m =>
        obtain ⟨o, x, d, r, ht, ho, hd, rfl⟩ := Brackets.exists_of_closing? hc
        obtain ⟨rfl, rfl⟩ := List.cons.inj ht
        have hskip := ofTextFrom_skip b (x ++ [d]) r (by simp : (x ++ [d]).length = x.length + 1)
        have hlen : r.length < n := by simp [← hn]; omega
        have hcut := Cuts.region hc ho hd (ih r.length hlen r rfl)
        simp only [List.append_assoc, List.singleton_append] at hskip
        simpa [hskip, List.take_append, List.take_of_length_le] using hcut

theorem Cuts.flatMap_text {ss : List Stretch} (h : Cuts b t ss) : ss.flatMap Stretch.text = t := by
  induction h with
  | nil => rfl
  | outside _ _ ih => simp [Stretch.text, ih]
  | region _ _ _ _ ih => simp [Stretch.text, ih]

theorem Cuts.exists_of_mem {ss : List Stretch} {u : Text} (h : Cuts b t ss)
    (hu : .region u ∈ ss) : ∃ s r o x c, t = s ++ (u ++ r) ∧ u = o :: (x ++ [c]) ∧
      b.opens o ∧ b.closes c := by
  induction h with
  | nil => simp at hu
  | @outside c t ss _ _ ih =>
    obtain ⟨s, r, o, x, d, rfl, hregion⟩ := ih (by simpa using hu)
    exact ⟨c :: s, r, o, x, d, rfl, hregion⟩
  | @region o c x r ss _ ho hc _ ih =>
    rcases List.mem_cons.mp hu with heq | hu
    · obtain rfl := Stretch.region.inj heq
      exact ⟨[], r, o, x, c, by simp, rfl, ho, hc⟩
    · obtain ⟨s, r', o', x', d, rfl, hregion⟩ := ih hu
      exact ⟨o :: (x ++ c :: s), r', o', x', d, by simp, hregion⟩

inductive DropsInnerQuotes : (b u r v : Text) → Prop
  | mk {b x r : Text} : DropsInnerQuotes b ('[' :: '"' :: (x ++ ['"', ']'])) r
      ('[' :: '"' :: (Text.dropQuotes x ++ ['"', ']']))

theorem exists_of_quotedLabel? (h : quotedLabel? t = some n) :
    ∃ x r, t = '[' :: '"' :: (x ++ '"' :: ']' :: r) ∧ n = x.length + 3 := by
  unfold quotedLabel? at h
  split at h
  · rename_i t
    cases hc : Brackets.square.closing? ('[' :: '"' :: t) with
    | none => simp [hc] at h
    | some m =>
      obtain ⟨o, x, d, r, ht, -, hd, rfl⟩ := Brackets.exists_of_closing? hc
      obtain rfl := Brackets.square_closes.mp hd
      simp only [hc, Option.ite_none_right_eq_some, Bool.and_eq_true, decide_eq_true_eq, beq_iff_eq,
        Option.some.injEq] at h
      obtain ⟨⟨hlen, hquote⟩, rfl⟩ := h
      replace ht := (List.cons.inj ht).2
      cases x with
      | nil => simp at hlen
      | cons e x =>
        obtain ⟨rfl, rfl⟩ := List.cons.inj ht
        rcases List.eq_nil_or_concat x with rfl | ⟨x, e, rfl⟩
        · simp at hlen
        · have he : e = '"' := by simpa [List.getElem?_append] using hquote
          exact ⟨x, r, by simp [he], by simp⟩
  · simp at h

theorem stripInnerQuotesFrom_skip (u r : Text) (hn : u.length = n) :
    stripInnerQuotesFrom n (u ++ r) = stripInnerQuotesFrom 0 r := by
  induction u generalizing n with
  | nil =>
    subst hn
    rfl
  | cons c u ih =>
    subst hn
    exact ih rfl

theorem stripInnerQuotes_edits (t : Text) : Edits DropsInnerQuotes [] t (stripInnerQuotes t) := by
  rw [stripInnerQuotes]
  generalize [] = b
  induction hn : t.length using Nat.strongRecOn generalizing b t with
  | _ n ih =>
    cases t with
    | nil =>
      rw [stripInnerQuotesFrom]
      exact .nil b
    | cons c t =>
      rw [stripInnerQuotesFrom]
      cases hc : quotedLabel? (c :: t) with
      | none => exact .keep (ih t.length (by simp [← hn]) t _ rfl)
      | some m =>
        obtain ⟨x, r, ht, rfl⟩ := exists_of_quotedLabel? hc
        obtain ⟨rfl, rfl⟩ := List.cons.inj ht
        have hskip := stripInnerQuotesFrom_skip ('"' :: (x ++ ['"', ']'])) r
          (by simp : ('"' :: (x ++ ['"', ']'])).length = x.length + 3)
        have hlen : r.length < n := by simp [← hn]; omega
        have hlabel : plainLabel ('[' :: '"' :: (x ++ ['"', ']'])) =
            '[' :: '"' :: (Text.dropQuotes x ++ ['"', ']']) := by
          simp [plainLabel]
        have htake : ('[' :: '"' :: (x ++ '"' :: ']' :: r)).take (x.length + 3 + 1) =
            '[' :: '"' :: (x ++ ['"', ']']) := by
          simp [List.take_append, List.take_of_length_le]
        have hedit := Edits.edit (DropsInnerQuotes.mk (x := x) (r := r))
          (ih r.length hlen r (('[' :: '"' :: (x ++ ['"', ']'])).reverse ++ b) rfl)
        simp only [List.cons_append, List.append_assoc, List.nil_append] at hskip hedit
        simpa only [hskip, htake, hlabel, List.cons_append, List.append_assoc,
          List.nil_append] using hedit

end DiagramRepair
