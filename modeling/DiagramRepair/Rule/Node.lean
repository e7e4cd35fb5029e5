import DiagramRepair.Rule.EdgeLabel

namespace DiagramRepair.Rule

open Pattern

def intermediateNodePattern : Pattern :=
  textStart ++ group "indent" blanks ++ group "source" (many1Lazy any) ++ blanks1 ++ sign "--" ++
    blanks1 ++ group "middle" labelledNode ++ blanks1 ++ group "arrow" lineArrow ++ blanks1 ++
    group "target" (many1Lazy any) ++ blanks ++ lastLineEnd

/-- `A -- Mid["L"] --> B` becomes two edges through `Mid`. -/
def splitIntermediateNodes (line : Text) : Text :=
  match intermediateNodePattern.match? line with
  | none => line
  | some m =>
    m.group "indent" ++ m.group "source" ++ Text.of " --> " ++ m.group "middle" ++ '\n' ::
      m.group "indent" ++ m.group "middle" ++ ' ' :: m.group "arrow" ++ ' ' :: m.group "target"

def gluedTargetPattern : Pattern :=
  group "arrow" (arrowPattern ++ opt barLabel ++ blanks) ++ group "token" ident ++
    notAhead (one isIdentChar) ++
    group "rest" (manyLazy (noneOf "[];-\"&" ||| singleDash)) ++
    group "end" (blanks ++ opt (sign ";") ++ blanks) ++ lastLineEnd

def doubledAt? (token : Text) (k : Nat) : Option Text :=
  let start := token.take k
  if start = (token.drop k).take k then some start else none

def doubledPrefix? (token : Text) : Option Text :=
  (List.range' 2 (token.length / 2 - 1)).findSome? (doubledAt? token)

inductive NodeFault where
  | emptyIdentifier
  deriving DecidableEq

/-- A label may start between the two: with a capital, a digit or a foreign letter, or after a
digit or a longer identifier. -/
def isPlausibleBoundary (start rest : Text) : Except NodeFault Bool :=
  if rest.head?.any (fun c ↦ c.isUpper || c.isDigit || 128 ≤ c.toNat) then .ok true
  else
    match start.getLast? with
    | none => .error .emptyIdentifier
    | some last => .ok (last.isDigit || 3 ≤ start.length)

def splitPoint? (ids : IdSet) (token : Text) : Except NodeFault (Option Text) := do
  match ids.longestPrefix? token with
  | none => return doubledPrefix? token
  | some start =>
    if ← isPlausibleBoundary start (token.drop start.length) then return some start
    else return doubledPrefix? token

def occurrences (token content : Text) : Nat :=
  ((notPrecededBy isIdentChar ++ lit token ++ notAhead (one isIdentChar)).findAll content).length

/-- A remainder that obviously is a label: capitalized, longer than one character, and the token
stands nowhere else. -/
def isGlued (ids : IdSet) (content token remainder : Text) : Bool :=
  remainder.head?.any (fun c ↦ c.isUpper || 128 ≤ c.toNat) && 2 ≤ remainder.length &&
    occurrences token content == 1 && !ids.mentions remainder

def splitTarget (ids : IdSet) (content : Text) (m : Match) : Except NodeFault Text := do
  let token := m.group "token"
  let rest := m.group "rest"
  if ids.defined.contains token then return m.whole
  match ← splitPoint? ids token with
  | none => return m.whole
  | some start =>
    let remainder := token.drop start.length
    if remainder.isEmpty then return m.whole
    if Text.isAllBlank rest && !isGlued ids content token remainder then return m.whole
    let label := Text.dropQuotes (Text.trim (remainder ++ rest))
    return m.group "arrow" ++ start ++ ['[', '"'] ++ label ++ ['"', ']'] ++ m.group "end"

def splitGluedTarget (ids : IdSet) (content line : Text) : Except NodeFault Text :=
  if Text.includes (Text.of "subgraph") line then .ok line
  else
    match gluedTargetPattern.search? line with
    | none => .ok line
    | some m => do return m.before.reverse ++ (← splitTarget ids content m) ++ m.after

/-- Splits an edge target whose label was glued onto its identifier: `--> SplitSplit Sample`
becomes `--> Split["Split Sample"]`. -/
def splitConcatenatedLabels (ids : IdSet) (content : Text) : Except NodeFault Text := do
  return Text.unlines (← (Text.lines content).mapM (splitGluedTarget ids content))

def missingBracketPattern : Pattern :=
  let labelled := sign "--" ++ blanks ++ sign "\"" ++ many (noneOf "\"") ++ sign "\"" ++ blanks ++
    sign "-->"
  group "arrow" ((sign "---" ||| sign "-->" ||| labelled) ++ opt barLabel ++ blanks) ++
    group "id" ident ++ notAhead (one isIdentChar) ++
    group "content" (many1 (noneOf "[];\n-" ||| singleDash)) ++ group "end" (sign ";")

def startsNoLabel (t : Text) : Bool := t.head?.any (among "&:(\x7b>@|")

/-- `--> Id some text;` becomes `--> Id["some text"];`. -/
def wrapMissingBrackets (line : Text) : Text :=
  missingBracketPattern.replaceAll (fun m ↦
    let content := m.group "content"
    let label := Text.trim content
    if label.isEmpty || Text.includes ['-', '-'] content || startsNoLabel label then m.whole
    else m.group "arrow" ++ m.group "id" ++ ['[', '"'] ++ Text.dropQuotes label ++ ['"', ']'] ++
      m.group "end") line

/-- `[["L"]]` becomes `["L"]`. -/
def fixExcessiveBrackets (line : Text) : Text :=
  (sign "\"]" ++ many1 (sign "]")).replaceAll (fun _ ↦ ['"', ']'])
    ((sign "[" ++ many1 (sign "[") ++ sign "\"").replaceAll (fun _ ↦ ['[', '"']) line)

def quotedBracketLabel : Pattern := sign "[\"" ++ many (noneOf "\"") ++ sign "\"]"

def duplicateLabelsPattern : Pattern :=
  group "id" ident ++ group "labels" (quotedBracketLabel ++ many1 quotedBracketLabel)

def lastLabel (labels : Text) : Text :=
  (((quotedBracketLabel ++ lastLineEnd).search? labels).map (·.whole)).getD []

/-- `Id["a"]["b"]` keeps only the last label. -/
def collapseDuplicateLabels (line : Text) : Text :=
  duplicateLabelsPattern.replaceAll (fun m ↦ m.group "id" ++ lastLabel (m.group "labels")) line

def unquotedLabelPattern : Pattern :=
  notPrecededBy isIdentChar ++ group "id" ident ++ sign "[" ++ notAhead (oneOf "[\"(/\\") ++
    group "content" (many (noneOf "[]")) ++ sign "]" ++ notAhead (sign "]")

def unsafeLabelPattern : Pattern :=
  oneOf "\"'=*\u00b1;+" ||| (textStart ||| blank) ++ sign "-"

def quoteLabel (id content : Text) : Text :=
  let trimmed := Text.trimEnd content
  let (text, terminator) : Text × Text :=
    if trimmed.endsWith [';'] then (trimmed.dropLast, [';']) else (content, [])
  id ++ ['[', '"'] ++ Text.trim (Text.dropQuotes text) ++ ['"', ']'] ++ terminator

/-- Quotes `Id[text]` labels that hold characters the grammar rejects: `A[x = y;]` becomes
`A["x = y"];`. -/
def quoteUnsafeNodeLabels (line : Text) : Text :=
  unquotedLabelPattern.replaceAll (fun m ↦
    let content := m.group "content"
    if insideQuotes m || !unsafeLabelPattern.occursIn content then m.whole
    else quoteLabel (m.group "id") content) line

end DiagramRepair.Rule
