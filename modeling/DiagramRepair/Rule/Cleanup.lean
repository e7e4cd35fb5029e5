import DiagramRepair.Bracket

namespace DiagramRepair.Rule

open Pattern

def bracketMarkPattern : Pattern :=
  sign "___BRACKET_BLOCK_" ++ many1 (one Text.isDecimalDigit) ++ sign "___"

/-- Removes marks of the form `___BRACKET_BLOCK_n___`. -/
def stripBracketMarks (line : Text) : Text := bracketMarkPattern.replaceAll (fun _ ↦ []) line

def emptyLabelPattern : Pattern :=
  sign "[\"\"]" ||| precededBy isIdentChar ++ sign "[" ++ blanks ++ sign "]"

def removeEmptyLabels (line : Text) : Text := emptyLabelPattern.replaceAll (fun _ ↦ []) line

def straightQuote (c : Char) : Char :=
  if among "\u201c\u201d\u201e\u201f\u2033" c then '"'
  else if among "\u2018\u2019" c then '\''
  else c

def straightenQuotes (line : Text) : Text := line.map straightQuote

end DiagramRepair.Rule
