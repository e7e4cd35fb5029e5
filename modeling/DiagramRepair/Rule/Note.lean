import DiagramRepair.Analysis.Identifiers

namespace DiagramRepair

open Pattern

structure NoteNames where
  taken : List Text := []
  counter : Nat := 0

namespace NoteNames

/-- Counts on until the name is free. As every number gives another name, one try more than there
are names to avoid is enough. -/
def search (node : Text) (avoid : List Text) : (fuel : Nat) → (counter : Nat) → Text → Text × Nat
  | 0, counter, name => (name, counter)
  | fuel + 1, counter, name =>
    if avoid.contains name then
      search node avoid fuel (counter + 1)
        (Text.of "Note" ++ node ++ '_' :: Text.ofNat (counter + 1))
    else (name, counter)

def next (names : NoteNames) (ids : List Text) (node : Text) : Text × NoteNames :=
  let avoid := names.taken ++ ids
  let (name, counter) :=
    search node avoid (avoid.length + 1) names.counter (Text.of "Note" ++ node)
  (name, ⟨names.taken ++ [name], counter⟩)

end NoteNames

namespace Rule

def sidePattern : Pattern :=
  word "right" ||| word "left" ||| word "top" ||| word "bottom" ||| word "over"

def foldedIdent : Pattern := many1 (one isFoldedIdentChar)

def sideNotePattern : Pattern :=
  textStart ++ group "indent" blanks ++ word "note" ++ blanks1 ++ sidePattern ++ blanks1 ++
    word "of" ++ blanks1 ++ group "id" foldedIdent ++ blanks ++ sign ":" ++ blanks ++
    group "text" (manyLazy any) ++ blanks ++ lastLineEnd

def quotedNotePattern : Pattern :=
  textStart ++ group "indent" blanks ++ word "note" ++ blanks1 ++
    opt ((word "for" ||| word "of") ++ blanks1) ++ group "id" foldedIdent ++ blanks ++
    opt (sign ":") ++ blanks ++ sign "\"" ++ group "text" (many (noneOf "\"")) ++ sign "\"" ++
    blanks ++ opt (sign ";") ++ blanks ++ lastLineEnd

def plainEdgePattern : Pattern :=
  textStart ++ group "indent" blanks ++ group "source" ident ++
    opt (group "label" squareLabel) ++ blanks ++ group "arrow" (sign "-->" ||| sign "---") ++
    notAhead (sign "|") ++ blanks ++ group "target" ident ++ group "rest" (many any) ++ lastLineEnd

def labelEdge? (node text line : Text) : Option Text :=
  (plainEdgePattern.match? line).bind fun m ↦
    if node = m.group "source" || node = m.group "target" then
      some (m.group "indent" ++ m.group "source" ++ m.group "label" ++ Text.of " -- \"" ++ text ++
        Text.of "\" " ++ m.group "arrow" ++ ' ' :: m.group "target" ++ m.group "rest")
    else none

def attachToEdge? (node text : Text) : List Text → Option (List Text)
  | [] => none
  | line :: before =>
    match labelEdge? node text line with
    | some labelled => some (labelled :: before)
    | none => (attachToEdge? node text before).map (line :: ·)

def noteNode (indent node text name : Text) : List Text :=
  [indent ++ node ++ Text.of " -.- " ++ name, indent ++ name ++ Text.of "[\"" ++ text ++ ['"', ']']]

def escapeQuotes (t : Text) : Text := t.flatMap fun c ↦ if c = '"' then Text.of "#quot;" else [c]

def convertNote (ids : List Text) (done : List Text) (names : NoteNames) (line : Text) :
    List Text × NoteNames :=
  match sideNotePattern.match? line with
  | some m =>
    let node := m.group "id"
    let text := escapeQuotes (m.group "text")
    match attachToEdge? node text done with
    | some labelled => (labelled, names)
    | none =>
      let (name, names) := names.next ids node
      (noteNode (m.group "indent") node text name ++ done, names)
  | none =>
    match quotedNotePattern.match? line with
    | some m =>
      let node := m.group "id"
      let (name, names) := names.next ids node
      (noteNode (m.group "indent") node (m.group "text") name ++ done, names)
    | none => (line :: done, names)

def convertNoteLines (ids : List Text) :
    (done : List Text) → NoteNames → List Text → List Text × NoteNames
  | done, names, [] => (done.reverse, names)
  | done, names, line :: rest =>
    let (done, names) := convertNote ids done names line
    convertNoteLines ids done names rest

def convertNoteDirectives (ids : List Text) (names : NoteNames) (content : Text) :
    Text × NoteNames :=
  let (ls, names) := convertNoteLines ids [] names (Text.lines content)
  (Text.unlines ls, names)

end Rule

end DiagramRepair
