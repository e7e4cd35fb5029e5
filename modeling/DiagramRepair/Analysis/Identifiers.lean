import DiagramRepair.Pattern.Search

namespace DiagramRepair

open Pattern

def arrowPattern : Pattern := sign "-->" ||| sign "---" ||| sign "==>" ||| sign "-.->"

def barLabel : Pattern := blanks ++ sign "|" ++ many (noneOf "|") ++ sign "|"

def squareLabel : Pattern := sign "[" ++ many (noneOf "]") ++ sign "]"

def keywords : List Text :=
  ["graph", "flowchart", "subgraph", "end", "style", "classDef", "class", "click", "linkStyle",
    "direction", "note"].map Text.of

def sourcePattern : Pattern :=
  let roundLabel := sign "(" ++ many (noneOf ")") ++ sign ")"
  let curlyLabel := sign "\x7b" ++ many (noneOf "\x7d") ++ sign "\x7d"
  textStart ++ blanks ++ group "id" ident ++ blanks ++
    opt (squareLabel ||| roundLabel ||| curlyLabel) ++ blanks ++
    (arrowPattern ||| sign "--" ||| sign "<--")

def definitionPattern : Pattern :=
  notPrecededBy isIdentChar ++ group "id" ident ++ blanks ++ oneOf "[(\x7b"

def targetPattern : Pattern :=
  arrowPattern ++ opt barLabel ++ blanks ++ group "id" ident ++
    ahead (blanks ++ (sign ";" ||| lastLineEnd ||| oneOf "[(\x7b&" ||| arrowPattern))

/-- The identifiers a block is known to use. -/
structure IdSet where
  ids : List Text := []
  defined : List Text := []

namespace IdSet

def mentions (s : IdSet) (id : Text) : Bool := s.ids.contains id

def keepLonger (best? : Option Text) (id : Text) : Option Text :=
  match best? with
  | none => some id
  | some best => if best.length < id.length then some id else some best

/-- The longest identifier that is a proper prefix of the token. -/
def longestPrefix? (s : IdSet) (token : Text) : Option Text :=
  (s.ids.filter (Text.isProperPrefix · token)).foldl keepLonger none

def definedIn (line : Text) : List Text :=
  (sourcePattern.match? line).toList.map (·.group "id") ++
    (definitionPattern.findAll line).map (·.group "id")

def targetsIn (line : Text) : List Text := (targetPattern.findAll line).map (·.group "id")

def isStatement (line : Text) : Bool :=
  let stripped := Text.trim line
  !stripped.isEmpty && !stripped.startsWith ['%', '%']

def harvest (content : Text) : IdSet :=
  let statements := (Text.lines content).filter isStatement
  let isName (id : Text) := !keywords.contains id
  let defined := (statements.flatMap definedIn).filter isName
  let targets := (statements.flatMap targetsIn).filter isName
  ⟨(defined ++ targets).eraseDups, defined.eraseDups⟩

end IdSet

end DiagramRepair
