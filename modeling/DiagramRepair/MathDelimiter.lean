import DiagramRepair.Placeholder.Hiding

namespace DiagramRepair.MathDelimiter

open Pattern

def toDollars : Text → Text
  | '\\' :: '(' :: t => '$' :: toDollars t
  | '\\' :: ')' :: t => '$' :: toDollars t
  | c :: t => c :: toDollars t
  | [] => []

def inlinePattern : Pattern :=
  sign "$" ++ blanks ++ group "body" (manyLazy (noneOf "$")) ++ blanks ++ sign "$"

def trimInline (m : Match) : Text :=
  if m.whole.startsWith ['$', '$'] && m.whole.endsWith ['$', '$'] then m.whole
  else '$' :: Text.trim (m.group "body") ++ ['$']

def cleanup [Nonces] (t : Text) : Text :=
  let (shown, dollars) := hideMatches (sign "\\$") "DOLLAR" t
  let trimmed := inlinePattern.replaceAll trimInline (toDollars shown)
  { dollars with pieces := dollars.pieces.map fun _ ↦ ['$'] }.restore trimmed

end DiagramRepair.MathDelimiter
