import DiagramRepair.Rule.Cleanup
import DiagramRepair.Proofs.Rule.Words

namespace DiagramRepair.Rule

open Pattern

inductive DropsBracketMark : (b u r v : Text) → Prop
  | mk {b digits r : Text} (hne : digits ≠ []) (hdigits : ∀ c ∈ digits, Text.isDecimalDigit c) :
    DropsBracketMark b (Text.of "___BRACKET_BLOCK_" ++ (digits ++ Text.of "___")) r []

theorem stripBracketMarks_edits (line : Text) :
    Edits DropsBracketMark [] line (stripBracketMarks line) := by
  refine edits_replaceAll (by decide) (by decide) (fun m hm ↦ .inr ?_) line
  obtain ⟨gs, h, -⟩ := hm
  simp only [bracketMarkPattern, takes_append_sign, takes_append_many1_one, takes_sign,
    existsAndEq, true_and, and_assoc] at h
  obtain ⟨digits, hu, hne, hdigits, -⟩ := h
  rw [hu, List.append_assoc]
  exact .mk hne hdigits

inductive DropsEmptyLabel : (b u r v : Text) → Prop
  | quoted {b r : Text} : DropsEmptyLabel b ['[', '"', '"', ']'] r []
  | blank {b s r : Text} (hb : b.head?.any isIdentChar) (hs : Blank s) :
    DropsEmptyLabel b ('[' :: (s ++ [']'])) r []

theorem removeEmptyLabels_edits (line : Text) :
    Edits DropsEmptyLabel [] line (removeEmptyLabels line) := by
  refine edits_replaceAll (by decide) (by decide) (fun m hm ↦ .inr ?_) line
  obtain ⟨gs, h, -⟩ := hm
  simp only [emptyLabelPattern, takes_or, takes_append_sign, takes_append_blanks, takes_sign,
    precededBy, takes_place] at h
  rcases h with ⟨hu, -⟩ | ⟨u, hu, u, s, rfl, hs, u, rfl, rfl, -, hb⟩
  · rw [hu]
    exact .quoted
  · rw [hu]
    exact .blank hb hs

theorem straightQuote_eq_self {c : Char} (h : ¬ among "\u201c\u201d\u201e\u201f\u2033" c)
    (h' : ¬ among "\u2018\u2019" c) : straightQuote c = c := by
  simp [straightQuote, h, h']

theorem straightQuote_cases (c : Char) :
    straightQuote c = c ∨ straightQuote c = '"' ∨ straightQuote c = '\'' := by
  unfold straightQuote
  split
  · exact .inr (.inl rfl)
  · split
    · exact .inr (.inr rfl)
    · exact .inl rfl

end DiagramRepair.Rule
