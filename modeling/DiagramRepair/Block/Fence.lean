import DiagramRepair.Pattern.Search

namespace DiagramRepair.Fence

open Pattern

def opening : Text := Text.of "```mermaid"

def closing : Text := Text.of "```"

/-- The fence sign alone; what follows it on the line is no part of it. -/
def openingPattern : Pattern :=
  textStart ++ sign "```" ++ blanks ++
    (sign "(" ++ blanks ++ sign "mermaid" ++ blanks ++ sign ")" ||| sign "mermaid")

def isOpening (line : Text) : Bool := openingPattern.isMatch (Text.trim line)

def isClosing (line : Text) : Bool := Text.trim line == closing

def normalizeOpening (line : Text) : Text :=
  line.takeWhile Text.isBlank ++ openingPattern.replaceFirst (fun _ ↦ opening) (Text.trimStart line)

end DiagramRepair.Fence
