import DiagramRepair.Bracket

namespace DiagramRepair.Line

open Pattern

def hasArrow (line : Text) : Bool := Text.includes (Text.of "-->") line

def hasSubgraph (line : Text) : Bool := (wordEdge ++ sign "subgraph" ++ wordEdge).occursIn line

def isIdentifierChar (c : Char) : Bool := isWordChar c

def hashCommentPattern : Pattern :=
  textStart ++ group "indent" blanks ++ group "source" (many1 (one isWordChar)) ++ blanks ++
    sign "-->" ++ blanks ++ group "target" (many1 (one isWordChar)) ++ sign ";" ++ blanks ++
    sign "#" ++ group "comment" (many any) ++ lastLineEnd

/-- `A --> B; # text` becomes `A -- "text" --> B;`. -/
def mergeHashComment (line : Text) : Text :=
  match hashCommentPattern.match? line with
  | none => line
  | some m =>
    m.group "indent" ++ m.group "source" ++ Text.of " -- \"" ++ Text.trim (m.group "comment") ++
      Text.of "\" --> " ++ m.group "target" ++ [';']

inductive QuoteState where
  | plain (depth : Nat)
  | quoted (depth : Nat)
  | wrapping

/-- The quote opens a label: an identifier stands right before it, its text starts with none of
blank, `;` and `]`, and a closing quote follows. -/
def opensGluedLabel (prev : Option Char) (rest : Text) : Bool :=
  prev.any isIdentifierChar && rest.head?.any (fun c ↦ !among " ;]" c) && rest.contains '"'

def bracketQuotedFrom : QuoteState → (prev : Option Char) → Text → Text
  | _, _, [] => []
  | .plain depth, prev, c :: t =>
    if c = '"' then
      if depth = 0 && opensGluedLabel prev t then
        '[' :: '"' :: bracketQuotedFrom .wrapping (some c) t
      else c :: bracketQuotedFrom (.quoted depth) (some c) t
    else if c = '[' then c :: bracketQuotedFrom (.plain (depth + 1)) (some c) t
    else if c = ']' then c :: bracketQuotedFrom (.plain (depth - 1)) (some c) t
    else c :: bracketQuotedFrom (.plain depth) (some c) t
  | .quoted depth, _, c :: t =>
    c :: bracketQuotedFrom (if c = '"' then .plain depth else .quoted depth) (some c) t
  | .wrapping, _, c :: t =>
    if c = '"' then '"' :: ']' :: bracketQuotedFrom (.plain 0) (some c) t
    else c :: bracketQuotedFrom .wrapping (some c) t

/-- `A"Text";` becomes `A["Text"];`, outside brackets and quotes. -/
def bracketQuotedLabels (line : Text) : Text := bracketQuotedFrom (.plain 0) none line

def closeBeforeTerminator : Text → Text
  | '[' :: '"' :: ';' :: t => '"' :: ']' :: ';' :: closeBeforeTerminator t
  | c :: t => c :: closeBeforeTerminator t
  | [] => []

def closeAtEnd (line : Text) : Text :=
  if line.endsWith ['[', '"'] then line.dropLast.dropLast ++ ['"', ']'] else line

def cleanLabelTail (line : Text) : Text := closeAtEnd (closeBeforeTerminator line)

def brokenEdgeLabelPattern : Pattern :=
  sign "--" ++ blanks ++ sign "[\"" ++ group "label" (many1Lazy any) ++ sign "[\"" ++ blanks ++
    sign "-->"

/-- `A --["Text["--> B` becomes `A -- "Text" --> B`. -/
def fixBrokenEdgeLabels (line : Text) : Text :=
  brokenEdgeLabelPattern.replaceAll
    (fun m ↦ Text.of "-- \"" ++ m.group "label" ++ Text.of "\" -->") line

def nestedLabelPattern : Pattern :=
  group "id" (many1 (one fun c ↦ !Text.isBlank c && c != '[')) ++ blanks ++ sign "[" ++
    notAhead (oneOf "\"'") ++
    group "content" (many (noneOf "[]" ||| sign "[" ++ many (noneOf "[]") ++ sign "]")) ++ sign "]"

def singleGroupPattern : Pattern := sign "[" ++ many (noneOf "[]") ++ sign "]"

/-- Quotes unquoted labels that hold brackets or a bar: `Id[a [b]]` becomes `Id["a [b]"]`. -/
def quoteNestedBracketLabels (line : Text) : Text :=
  nestedLabelPattern.replaceAll (fun m ↦
    let content := m.group "content"
    if !content.any (among "[]|") || (singleGroupPattern.fullMatch? content).isSome then m.whole
    else m.group "id" ++ ['[', '"'] ++ Text.dropQuotes content ++ ['"', ']']) line

def pipeLabelPattern : Pattern :=
  group "arrow" (sign "-->" ||| sign "---" ||| sign "==>" ||| sign "-.->") ++
    group "gap" blanks ++ sign "|" ++
    group "label" (noneOf "\"|" ++ manyLazy (noneOf "\"|")) ++ sign "|"

/-- `A -->|Yes| B` becomes `A -->|"Yes"| B`. -/
def quotePipeLabels (line : Text) : Text :=
  pipeLabelPattern.replaceAll (fun m ↦
    m.group "arrow" ++ m.group "gap" ++ ['|', '"'] ++ m.group "label" ++ ['"', '|']) line

/-- A label region without parentheses and braces, unless its text starts like a shape. -/
def stripRegion (region : Text) : Text :=
  let inner := region.tail.dropLast
  if inner.head?.any (among "([/\\\x7b") then region
  else '[' :: inner.filter (fun c ↦ !among "()\x7b\x7d" c) ++ [']']

def stripStretches : (prev : Option Char) → List Stretch → Text
  | _, [] => []
  | _, .outside c :: ss => c :: stripStretches (some c) ss
  | prev, .region r :: ss =>
    (if prev.any isIdentifierChar then stripRegion r else r) ++ stripStretches (some ']') ss

def stripLabelDecorations (line : Text) : Text :=
  stripStretches none (Stretch.ofText .square line)

/-- Brackets glued labels and cleans tails, at most so many times and no longer than it changes
the line. -/
def settleLabels : (passes : Nat) → Text → Text
  | 0, line => line
  | passes + 1, line =>
    let next := cleanLabelTail (bracketQuotedLabels line)
    if next = line then next else settleLabels passes next

def maxPasses : Nat := 4

def normalize (line : Text) : Text :=
  let line := mergeHashComment line
  let line :=
    if hasSubgraph line then line
    else quoteNestedBracketLabels (fixBrokenEdgeLabels (settleLabels maxPasses line))
  cleanLabelTail (stripLabelDecorations (quotePipeLabels line))

end DiagramRepair.Line
