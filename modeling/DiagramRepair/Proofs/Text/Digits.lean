import DiagramRepair.Placeholder.Registry
import DiagramRepair.Proofs.Text.Classes
import Mathlib.Data.List.Basic

namespace DiagramRepair

open Pattern

variable {t : Text} {c : Char} {n : Nat}

theorem digitValue?_of_isDigit (h : c.isDigit) : Text.digitValue? c = some (c.toNat - 48) := by
  have hrange : 48 ≤ c.toNat ∧ c.toNat ≤ 57 := by
    simpa [Char.isDigit, UInt32.le_iff_toNat_le] using h
  rw [Text.digitValue?, Text.decimalZeros, List.find?_cons_of_pos]
  · rfl
  · simp only [Bool.and_eq_true, decide_eq_true_eq]
    omega

theorem isDecimalDigit_of_isDigit (h : c.isDigit) : Text.isDecimalDigit c := by
  rw [Text.isDecimalDigit, digitValue?_of_isDigit h]
  rfl

theorem isDigit_of_mem_ofNat (h : c ∈ Text.ofNat n) : c.isDigit :=
  Nat.isDigit_of_mem_toDigits (by decide) (by decide) h

theorem digitsValue_eq_ofDigitChars {t : Text} (h : ∀ c ∈ t, c.isDigit) :
    Registry.digitsValue t = Nat.ofDigitChars 10 t 0 := by
  rw [Registry.digitsValue, Nat.ofDigitChars]
  refine List.foldl_ext _ _ 0 fun n c hc ↦ ?_
  rw [digitValue?_of_isDigit (h c hc)]
  rfl

theorem digitsValue_ofNat (n : Nat) : Registry.digitsValue (Text.ofNat n) = n := by
  rw [digitsValue_eq_ofDigitChars fun _ ↦ isDigit_of_mem_ofNat, Text.ofNat,
    Nat.ofDigitChars_ten_toDigits]

theorem isIdentChar_of_mem_toDigits (h : c ∈ Nat.toDigits 16 n) : isIdentChar c ∧ c ≠ 'K' := by
  induction n using Nat.strongRecOn with
  | _ n ih =>
    have hdigit : ∀ m < 16, isIdentChar m.digitChar ∧ m.digitChar ≠ 'K' := by decide
    rw [Nat.toDigits_eq_if (by decide)] at h
    split at h
    · rename_i hn
      rw [List.mem_singleton.mp h]
      exact hdigit n hn
    · rename_i hn
      rcases List.mem_append.mp h with h | h
      · exact ih (n / 16) (by omega) h
      · rw [List.mem_singleton.mp h]
        exact hdigit _ (Nat.mod_lt _ (by decide))

end DiagramRepair
