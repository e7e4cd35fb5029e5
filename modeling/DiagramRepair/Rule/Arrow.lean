import DiagramRepair.Analysis.Identifiers
import DiagramRepair.Bracket

namespace DiagramRepair.Rule

open Pattern

def invalidArrowPattern : Pattern :=
  sign "--|>" ||| sign "--" ++ blanks1 ++ sign ">" ++ notAhead (sign ">") |||
    oneOf "\u2014\u2013" ++ sign ">" ||| sign "-->>" ||| sign "\u2192"

/-- `--|>`, `-- >`, long dashes with `>`, `-->>` and `→` become `-->`. -/
def fixInvalidArrows (content : Text) : Text :=
  invalidArrowPattern.replaceAll (fun _ ↦ Text.of "-->") content

def nodeReference : Pattern := ident ++ opt squareLabel

def reversedEdgePattern : Pattern :=
  textStart ++ group "indent" blanks ++ group "left" nodeReference ++ blanks ++ sign "<--" ++
    notAhead (sign ">") ++ blanks ++ group "right" nodeReference ++
    group "tail" (blanks ++ opt (sign ";") ++ blanks) ++ lastLineEnd

/-- `A <-- B;` becomes `B --> A;`. -/
def fixReversedEdges (line : Text) : Text :=
  match reversedEdgePattern.match? line with
  | none => line
  | some m =>
    m.group "indent" ++ m.group "right" ++ Text.of " --> " ++ m.group "left" ++ m.group "tail"

def misplacedPipePattern : Pattern :=
  textStart ++ group "indent" blanks ++ sign ">|" ++
    group "label"
      (sign "\"" ++ many (sign "\\" ++ any ||| noneOf "\"\\") ++ sign "\"" |||
        many1 (noneOf "|")) ++
    sign "|" ++ blanks ++ group "source" (many1 (one fun c ↦ !Text.isBlank c)) ++ blanks1 ++
    group "arrow" (sign "-->" ||| sign "---") ++ blanks1 ++ group "target" (many1Lazy any) ++
    blanks ++ lastLineEnd

/-- `>|"L"| A --> B` becomes `A -->|"L"| B`. -/
def fixMisplacedPipes (line : Text) : Text :=
  match misplacedPipePattern.match? line with
  | none => line
  | some m =>
    m.group "indent" ++ m.group "source" ++ ' ' :: m.group "arrow" ++ '|' :: m.group "label" ++
      Text.of "| " ++ m.group "target"

def insideQuotes (m : Match) : Bool := m.before.count '"' % 2 == 1

def closeLabelBeforeArrow (t : Text) : Text :=
  (sign " -->\"").replaceAll (fun m ↦ if insideQuotes m then Text.of "\" -->" else m.whole) t

def openLabelAfterDashes (t : Text) : Text :=
  (sign "\"-- ").replaceAll (fun m ↦ if insideQuotes m then m.whole else Text.of "--\" ") t

/-- Moves quotes that swallowed an arrow back inside the label, outside bracketed labels:
`A -- "Feeds -->" B` becomes `A -- "Feeds" --> B`. -/
def fixMalformedArrowLabels [Nonces] (line : Text) : Text :=
  if !Text.includes ['-', '-'] line then line
  else
    let (shown, registry) := hideBracketRegions line
    registry.restore (openLabelAfterDashes (closeLabelBeforeArrow shown))

end DiagramRepair.Rule
