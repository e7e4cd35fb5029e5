import DiagramRepair.Rule.Template
import DiagramRepair.Rule.EdgeLabel

namespace DiagramRepair.Rule

open Pattern

def trailingCommentPattern : Pattern :=
  textStart ++ group "body" (manyLazy any ++ sign ";") ++ blanks ++ many1 (oneOf "%#") ++ blanks ++
    group "comment" (many1Lazy any) ++ blanks ++ lastLineEnd

def quotedEdgeLabelPattern : Pattern :=
  sign "--" ++ blanks ++ sign "\"" ++ group "label" (many (noneOf "\"")) ++ sign "\"" ++ blanks ++
    sign "-->"

def unquotedEdgeLabelPattern : Pattern :=
  separator ++ blanks ++ group "label" openLabel ++ blanks ++ sign "-->"

def bareEdgePattern : Pattern := blanks ++ sign "-->"

def appendComment (comment : Text) (m : Match) : Text :=
  Text.of "-- \"" ++ Text.trim (m.group "label") ++ '(' :: comment ++ Text.of ")\" -->"

/-- The comment as the label of a bare edge. The label is read as a replacement template, so
backslashes in the comment start escapes. -/
def labelBareEdge (comment body : Text) : Except Template.Fault Text := do
  let template ← Template.parse (Text.of " -- \"" ++ comment ++ Text.of "\" -->")
  return bareEdgePattern.replaceFirst (fun m ↦ Template.expand m.whole template) body

/-- `A -- "L" --> B; % note` becomes `A -- "L(note)" --> B;`. An edge without a label gets the
comment as its label. -/
def mergeTrailingComments (line : Text) : Except Template.Fault Text :=
  match trailingCommentPattern.match? line with
  | none => .ok line
  | some m =>
    let body := m.group "body"
    let comment := (m.group "comment").map fun c ↦ if c = '"' then '\'' else c
    if !Text.includes (Text.of "-->") body then .ok line
    else if quotedEdgeLabelPattern.occursIn body then
      .ok (quotedEdgeLabelPattern.replaceFirst (appendComment comment) body)
    else if unquotedEdgeLabelPattern.occursIn body then
      .ok (unquotedEdgeLabelPattern.replaceFirst (appendComment comment) body)
    else labelBareEdge comment body

end DiagramRepair.Rule
