import DiagramRepair.Text.Utf8
import Mathlib.Tactic.IntervalCases

namespace DiagramRepair.Text

namespace Utf8

variable {k m₁ m₂ m₃ p : Nat} {b b₁ b₂ b₃ : UInt8} {rest : Bytes}

theorem lead?_two (hlow : 2 ≤ k) (hhigh : k < 32) : lead? (k + 0xc0) = some ⟨0x80, 0xbf, 1, k⟩ := by
  simp [lead?]
  omega

/-- The second byte is bounded where fewer bytes would do, and where a surrogate would result. -/
theorem lead?_three (h : k < 16) : lead? (k + 0xe0) =
    some ⟨if k = 0 then 0xa0 else 0x80, if k = 0xd then 0x9f else 0xbf, 2, k⟩ := by
  interval_cases k <;> simp [lead?]

theorem lead?_four (h : k ≤ 4) : lead? (k + 0xf0) =
    some ⟨if k = 0 then 0x90 else 0x80, if k = 4 then 0x8f else 0xbf, 3, k⟩ := by
  interval_cases k <;> simp [lead?]

theorem shift_eq (hb : b.toNat = m₁ + 0x80) (n : Nat) : shift n b = 64 * n + m₁ := by
  have hshift : shift n b = 64 * n + (b.toNat - 0x80) := rfl
  rw [hshift]
  omega

theorem isContinuation_eq (hb : b.toNat = m₁ + 0x80) (h : m₁ < 64) : isContinuation b := by
  simp only [isContinuation, hb, Bool.and_eq_true, decide_eq_true_eq]
  omega

theorem decodeFrom_one (hb : b.toNat < 0x80) :
    decodeFrom p (b :: rest) = (decodeFrom (p + 1) rest).map (Char.ofNat b.toNat :: ·) := by
  rw [decodeFrom, if_pos hb]

theorem decodeFrom_two (hb : b.toNat = k + 0xc0) (hb₁ : b₁.toNat = m₁ + 0x80) (hlow : 2 ≤ k)
    (hhigh : k < 32) (h₁ : m₁ < 64) :
    decodeFrom p (b :: b₁ :: rest) =
      (decodeFrom (p + 2) rest).map (Char.ofNat (64 * k + m₁) :: ·) := by
  have hnot : ¬ b.toNat < 0x80 := by omega
  have hsecond : (b₁.toNat < 0x80 || 0xbf < b₁.toNat) = false := by
    simp
    omega
  rw [decodeFrom, if_neg hnot, hb, lead?_two hlow hhigh]
  simp only [hsecond, shift_eq hb₁, Bool.false_eq_true, if_false, if_true]

theorem decodeFrom_three (hb : b.toNat = k + 0xe0) (hb₁ : b₁.toNat = m₁ + 0x80)
    (hb₂ : b₂.toNat = m₂ + 0x80) (hk : k < 16) (h₁ : m₁ < 64) (h₂ : m₂ < 64)
    (hshort : k = 0 → 32 ≤ m₁) (hsurrogate : k = 0xd → m₁ < 32) :
    decodeFrom p (b :: b₁ :: b₂ :: rest) =
      (decodeFrom (p + 3) rest).map (Char.ofNat (64 * (64 * k + m₁) + m₂) :: ·) := by
  have hnot : ¬ b.toNat < 0x80 := by omega
  have hsecond : (b₁.toNat < (if k = 0 then 0xa0 else 0x80) ||
      (if k = 0xd then 0x9f else 0xbf) < b₁.toNat) = false := by
    rw [Bool.or_eq_false_iff, decide_eq_false_iff_not, decide_eq_false_iff_not]
    split <;> split <;> omega
  rw [decodeFrom, if_neg hnot, hb, lead?_three hk]
  simp only [hsecond, shift_eq hb₁, shift_eq hb₂, isContinuation_eq hb₂ h₂, Bool.false_eq_true,
    Bool.not_true, if_false, if_true, Nat.reduceEqDiff]

theorem decodeFrom_four (hb : b.toNat = k + 0xf0) (hb₁ : b₁.toNat = m₁ + 0x80)
    (hb₂ : b₂.toNat = m₂ + 0x80) (hb₃ : b₃.toNat = m₃ + 0x80) (hk : k ≤ 4) (h₁ : m₁ < 64)
    (h₂ : m₂ < 64) (h₃ : m₃ < 64) (hshort : k = 0 → 16 ≤ m₁) (hlast : k = 4 → m₁ < 16) :
    decodeFrom p (b :: b₁ :: b₂ :: b₃ :: rest) =
      (decodeFrom (p + 4) rest).map (Char.ofNat (64 * (64 * (64 * k + m₁) + m₂) + m₃) :: ·) := by
  have hnot : ¬ b.toNat < 0x80 := by omega
  have hsecond : (b₁.toNat < (if k = 0 then 0x90 else 0x80) ||
      (if k = 4 then 0x8f else 0xbf) < b₁.toNat) = false := by
    rw [Bool.or_eq_false_iff, decide_eq_false_iff_not, decide_eq_false_iff_not]
    split <;> split <;> omega
  rw [decodeFrom, if_neg hnot, hb, lead?_four hk]
  simp only [hsecond, shift_eq hb₁, shift_eq hb₂, shift_eq hb₃, isContinuation_eq hb₂ h₂,
    isContinuation_eq hb₃ h₃, Bool.false_eq_true, Bool.not_true, if_false, Nat.reduceEqDiff]

theorem toNat_byte {n : Nat} (h : n < 256) : (UInt8.ofNat n).toNat = n :=
  UInt8.toNat_ofNat_of_lt' h

theorem decodeFrom_encodeChar (c : Char) (p : Nat) (rest : Bytes) : ∃ p',
    decodeFrom p (String.utf8EncodeChar c ++ rest) = (decodeFrom p' rest).map (c :: ·) := by
  have hc : c.val.toNat < 0xd800 ∨ 0xdfff < c.val.toNat ∧ c.val.toNat < 0x110000 := c.valid
  have hofNat : Char.ofNat c.val.toNat = c := Char.ofNat_toNat c
  rw [String.utf8EncodeChar]
  generalize c.val.toNat = n at hc hofNat
  split
  · have hbyte : (UInt8.ofNat n).toNat = n := toNat_byte (by omega)
    refine ⟨p + 1, (decodeFrom_one (by omega)).trans ?_⟩
    rw [hbyte, hofNat]
    rfl
  · split
    · refine ⟨p + 2, (decodeFrom_two (toNat_byte (by omega)) (toNat_byte (by omega)) (by omega)
        (by omega) (by omega)).trans ?_⟩
      have hn : 64 * (n / 64 % 32) + n % 64 = n := by omega
      rw [hn, hofNat]
      rfl
    · split
      · refine ⟨p + 3, (decodeFrom_three (toNat_byte (by omega)) (toNat_byte (by omega))
          (toNat_byte (by omega)) (by omega) (by omega) (by omega) (by omega)
          (by omega)).trans ?_⟩
        have hn : 64 * (64 * (n / 4096 % 16) + n / 64 % 64) + n % 64 = n := by omega
        rw [hn, hofNat]
        rfl
      · refine ⟨p + 4, (decodeFrom_four (toNat_byte (by omega)) (toNat_byte (by omega))
          (toNat_byte (by omega)) (toNat_byte (by omega)) (by omega) (by omega) (by omega)
          (by omega) (by omega) (by omega)).trans ?_⟩
        have hn : 64 * (64 * (64 * (n / 262144 % 8) + n / 4096 % 64) + n / 64 % 64) + n % 64 = n :=
          by omega
        rw [hn, hofNat]
        rfl

theorem decodeFrom_encode (t : Text) (p : Nat) : decodeFrom p (encode t) = .ok t := by
  induction t generalizing p with
  | nil => rfl
  | cons c t ih =>
    obtain ⟨p', hc⟩ := decodeFrom_encodeChar c p (encode t)
    have hcons : encode (c :: t) = String.utf8EncodeChar c ++ encode t := List.flatMap_cons
    rw [hcons, hc, ih]
    rfl

theorem decode_encode (t : Text) : decode (encode t) = .ok t := decodeFrom_encode t 0

end Utf8

theorem unifyLineEnds_eq_self {t : Text} (h : '\r' ∉ t) : unifyLineEnds t = t := by
  fun_induction unifyLineEnds t with
  | case1 => simp at h
  | case2 => simp at h
  | case3 c t _ _ ih => rw [ih (List.not_mem_of_not_mem_cons h)]
  | case4 => rfl

theorem not_mem_unifyLineEnds (t : Text) : '\r' ∉ unifyLineEnds t := by
  fun_induction unifyLineEnds t with
  | case1 t ih => simpa using ih
  | case2 t _ ih => simpa using ih
  | case3 c t _ hc ih =>
    rw [List.mem_cons, not_or]
    refine ⟨?_, ih⟩
    rintro rfl
    exact hc rfl
  | case4 => simp

end DiagramRepair.Text
