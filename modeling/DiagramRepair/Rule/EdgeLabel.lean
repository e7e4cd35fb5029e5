import DiagramRepair.Rule.Arrow
import DiagramRepair.Line.Normal

namespace DiagramRepair.Rule

open Pattern

def separator : Pattern := notPrecededBy (· == '-') ++ sign "--" ++ notAhead (oneOf "->")

def singleDash : Pattern := sign "-" ++ notAhead (sign "-")

def labelChar : Pattern := noneOf "\"-" ||| singleDash

def openLabel : Pattern :=
  one (fun c ↦ !Text.isBlank c && !among "\"-" c) ++ manyLazy labelChar

def eitherLabel : Pattern :=
  sign "\"" ++ many (noneOf "\"") ++ sign "\"" ||| many1Lazy labelChar

def lineArrow : Pattern := sign "-->" ||| sign "---"

def trailingLabelPattern : Pattern :=
  textStart ++ group "head" (manyLazy any) ++ group "arrow" lineArrow ++ blanks ++
    group "tail" (many (noneOf ";\"") ++ sign ";") ++ blanks ++ sign "\"" ++
    group "label" (many (noneOf "\"")) ++ sign "\"" ++ blanks ++ lastLineEnd

/-- `A --> B; "L"` becomes `A -- "L" --> B;`. -/
def relocateTrailingLabels (line : Text) : Text :=
  match trailingLabelPattern.match? line with
  | none => line
  | some m =>
    Text.trimEnd (m.group "head") ++ Text.of " -- \"" ++ m.group "label" ++ Text.of "\" " ++
      m.group "arrow" ++ ' ' :: Text.trim (m.group "tail")

def groupLabelPattern : Pattern :=
  let named :=
    sign "subgraph" ++ blanks1 ++ opt (sign "\"") ++
      group "name" (many1Lazy (noneOf "\"-")) ++ opt (sign "\"")
  let bracketed :=
    oneOf "[\x7b" ++ blanks ++ opt (sign "\"") ++
      group "label" (manyLazy (noneOf "\"]\x7d")) ++ opt (sign "\"") ++ blanks ++ oneOf "]\x7d"
  separator ++ blanks ++ (named ||| bracketed) ++ blanks ++ sign "-->"

/-- `A -- ["L"] --> B` and `A -- subgraph L --> B` become `A -- "L" --> B`. -/
def convertGroupLabels (line : Text) : Text :=
  groupLabelPattern.replaceAll (fun m ↦
    let label := (m.group? "name").getD (m.group "label")
    Text.of "-- \"" ++ Text.trim label ++ Text.of "\" -->") line

def doubleLabelPattern : Pattern :=
  separator ++ blanks ++ group "first" eitherLabel ++ blanks ++ separator ++ blanks ++
    group "second" eitherLabel ++ blanks ++ group "arrow" lineArrow ++ notAhead (sign "-")

def labelThenPipePattern : Pattern :=
  sign "--" ++ blanks ++ sign "\"" ++ group "first" (many (noneOf "\"")) ++ sign "\"" ++ blanks ++
    sign "-->" ++ blanks ++ sign "|" ++ opt (sign "\"") ++ group "second" (many (noneOf "\"|")) ++
    opt (sign "\"") ++ sign "|"

def unquote (label : Text) : Text :=
  let label := Text.trim label
  if 2 ≤ label.length && label.startsWith ['"'] && label.endsWith ['"'] then label.tail.dropLast
  else label

/-- `A -- L1 -- L2 --> B` becomes `A -- "L1<br>L2" --> B`. -/
def mergeSeparatedLabels (line : Text) : Text :=
  doubleLabelPattern.replaceAll (fun m ↦
    Text.of "-- \"" ++ unquote (m.group "first") ++ Text.of "<br>" ++ unquote (m.group "second") ++
      Text.of "\" " ++ m.group "arrow") line

/-- `A -- "L1" -->|"L2"| B` becomes `A -- "L1<br>(L2)" --> B`. -/
def mergePipeLabels (line : Text) : Text :=
  labelThenPipePattern.replaceAll (fun m ↦
    Text.of "-- \"" ++ m.group "first" ++ Text.of "<br>(" ++ Text.trim (m.group "second") ++
      Text.of ")\" -->") line

/-- Merges two labels on one edge. A chain of undecorated links is left alone. -/
def mergeDoubleLabels (line : Text) : Text := mergePipeLabels (mergeSeparatedLabels line)

def trailingDoubleDashPattern : Pattern :=
  separator ++ group "gap" blanks ++ group "target" nodeReference ++
    group "end" (blanks ++ sign ";" ++ blanks) ++ lastLineEnd

def promoteDoubleDash (line : Text) : Text :=
  trailingDoubleDashPattern.replaceAll (fun m ↦
    Text.of "-->" ++ m.group "gap" ++ m.group "target" ++ m.group "end") line

def edgeLabelPattern : Pattern :=
  separator ++ blanks ++ group "label" openLabel ++ blanks ++ group "arrow" lineArrow ++
    notAhead (sign "-")

def labelledNode : Pattern := ident ++ squareLabel

def isPunctuation (c : Char) : Bool := !isWordChar c && !Text.isBlank c

/-- Quotes an unquoted edge label that holds punctuation and is not a node with its label. -/
def quoteEdgeLabels (line : Text) : Text :=
  edgeLabelPattern.replaceAll (fun m ↦
    let label := Text.trim (m.group "label")
    if !label.any isPunctuation || (labelledNode.fullMatch? label).isSome then m.whole
    else Text.of "-- \"" ++ label ++ Text.of "\" " ++ m.group "arrow") line

end DiagramRepair.Rule
