import DiagramRepair.Pattern.Basic
import DiagramRepair.Text.Digit

namespace DiagramRepair

open Pattern

variable {c : Char}

-- Conditions on the characters of a text are decided for these alone. The priority is for files in
-- which an instance that goes through all characters there are is also in scope.
instance (priority := 2000) decidableForallMemText (P : Char → Prop) [DecidablePred P] (t : Text) :
    Decidable (∀ c ∈ t, P c) := List.decidableBAll P t

instance (priority := 2000) decidableForallMemChar? (P : Char → Prop) [DecidablePred P]
    (c? : Option Char) : Decidable (∀ c ∈ c?, P c) := Option.decidableForallMem c?

theorem ne_of_class {p : CharClass} {d : Char} (hc : p c) (hd : p d = false) : c ≠ d := by
  rintro rfl
  simp [hc] at hd

theorem not_mem_of_class {p : CharClass} {t : Text} (ht : ∀ c ∈ t, p c) (hc : p c = false) :
    c ∉ t :=
  fun hmem ↦ ne_of_class (ht c hmem) hc rfl

theorem isIdentChar_iff : isIdentChar c ↔ (48 ≤ c.toNat ∧ c.toNat ≤ 57) ∨
    (65 ≤ c.toNat ∧ c.toNat ≤ 90) ∨ (97 ≤ c.toNat ∧ c.toNat ≤ 122) ∨ c.toNat = 95 := by
  have hunderscore : c = '_' ↔ c.toNat = 95 := Char.toNat_inj (c := c) (d := '_') |>.symm
  delta isIdentChar Char.isAlphanum Char.isAlpha Char.isUpper Char.isLower Char.isDigit
  simp only [Bool.or_eq_true, Bool.and_eq_true, decide_eq_true_eq, beq_iff_eq, ge_iff_le,
    UInt32.le_iff_toNat_le, hunderscore]
  change (((65 ≤ c.toNat ∧ c.toNat ≤ 90) ∨ (97 ≤ c.toNat ∧ c.toNat ≤ 122)) ∨
    (48 ≤ c.toNat ∧ c.toNat ≤ 57)) ∨ c.toNat = 95 ↔ _
  omega

theorem isBlank_iff : Text.isBlank c ↔ (9 ≤ c.toNat ∧ c.toNat ≤ 13) ∨
    (28 ≤ c.toNat ∧ c.toNat ≤ 32) ∨ c.toNat = 0x85 ∨ c.toNat = 0xa0 ∨ c.toNat = 0x1680 ∨
    (0x2000 ≤ c.toNat ∧ c.toNat ≤ 0x200a) ∨ c.toNat = 0x2028 ∨ c.toNat = 0x2029 ∨
    c.toNat = 0x202f ∨ c.toNat = 0x205f ∨ c.toNat = 0x3000 := by
  simp only [Text.isBlank, Bool.or_eq_true, Bool.and_eq_true, decide_eq_true_eq, beq_iff_eq]
  omega

theorem not_isIdentChar_of_isBlank (h : Text.isBlank c) : isIdentChar c = false := by
  rw [Bool.eq_false_iff]
  intro hc
  rw [isIdentChar_iff] at hc
  rw [isBlank_iff] at h
  omega

theorem not_isBlank_of_isIdentChar (h : isIdentChar c) : Text.isBlank c = false := by
  rw [Bool.eq_false_iff]
  intro hblank
  simp [not_isIdentChar_of_isBlank hblank] at h

def blankCodes : List Nat :=
  [9, 10, 11, 12, 13, 28, 29, 30, 31, 32, 0x85, 0xa0, 0x1680, 0x2000, 0x2001, 0x2002, 0x2003,
   0x2004, 0x2005, 0x2006, 0x2007, 0x2008, 0x2009, 0x200a, 0x2028, 0x2029, 0x202f, 0x205f, 0x3000]

theorem toNat_mem_blankCodes (h : Text.isBlank c) : c.toNat ∈ blankCodes := by
  rw [isBlank_iff] at h
  simp only [blankCodes, List.mem_cons, List.not_mem_nil, or_false]
  omega

theorem not_isWordChar_of_isBlank (h : Text.isBlank c) : isWordChar c = false := by
  have hcodes : ∀ n ∈ blankCodes, isWordChar (Char.ofNat n) = false := by decide +kernel
  simpa using hcodes _ (toNat_mem_blankCodes h)

theorem not_isFoldedIdentChar_of_isBlank (h : Text.isBlank c) : isFoldedIdentChar c = false := by
  have hcodes : ∀ n ∈ blankCodes, isFoldedIdentChar (Char.ofNat n) = false := by decide +kernel
  simpa using hcodes _ (toNat_mem_blankCodes h)

theorem isIdentChar_of_toLower (h : isIdentChar c.toLower) : isIdentChar c := by
  by_cases hupper : c.isUpper
  · have halpha : c.isAlpha = (c.isUpper || c.isLower) := rfl
    rw [isIdentChar, Char.isAlphanum, halpha, hupper]
    rfl
  · have hlower : c.toLower = c := dif_neg fun hc ↦ hupper (decide_eq_true hc)
    rwa [hlower] at h

theorem isFoldedIdentChar_of_isIdentChar (h : isIdentChar c) : isFoldedIdentChar c := by
  simp [isFoldedIdentChar, h]

theorem isIdentChar_of_isDigit (h : c.isDigit) : isIdentChar c := by
  simp [isIdentChar, Char.isAlphanum, h]

end DiagramRepair
