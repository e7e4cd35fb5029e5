import DiagramRepair.Pattern.Search

namespace DiagramRepair

open Pattern

inductive DiagramKind where
  | flowchart | sequence | classes | state | entityRelation | gantt | pie | mindmap | timeline
  | unknown
  deriving DecidableEq, Repr

namespace DiagramKind

def name : DiagramKind → String
  | flowchart => "flowchart"
  | sequence => "sequence"
  | classes => "class"
  | state => "state"
  | entityRelation => "er"
  | gantt => "gantt"
  | pie => "pie"
  | mindmap => "mindmap"
  | timeline => "timeline"
  | unknown => "unknown"

def headers : List (Pattern × DiagramKind) :=
  [(sign "graph" ||| sign "flowchart", flowchart), (sign "sequenceDiagram", sequence),
    (sign "classDiagram", classes), (sign "stateDiagram" ++ opt (sign "-v2"), state),
    (sign "erDiagram", entityRelation), (sign "gantt", gantt), (sign "pie", pie),
    (sign "mindmap", mindmap), (sign "timeline", timeline)]

def ofHeader (line : Text) : DiagramKind :=
  ((headers.find? fun (p, _) ↦ (textStart ++ p ++ wordEdge).isMatch line).map (·.2)).getD unknown

def ofLines : (inFrontMatter : Bool) → List Text → DiagramKind
  | _, [] => unknown
  | inFrontMatter, line :: rest =>
    let stripped := Text.trim line
    if stripped = ['-', '-', '-'] then ofLines (!inFrontMatter) rest
    else if inFrontMatter || stripped.isEmpty || stripped.startsWith ['%', '%'] then
      ofLines inFrontMatter rest
    else ofHeader stripped

def detect (content : Text) : DiagramKind := ofLines false (Text.lines content)

def isFlowchart (k : DiagramKind) : Bool := k == flowchart || k == unknown

end DiagramKind

end DiagramRepair
