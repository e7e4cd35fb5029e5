import DiagramRepair.Block.Segment

namespace DiagramRepair

open Pattern

def closedBlockPattern : Pattern :=
  let margin := many (oneOf " \t")
  let fence := sign "```" ||| sign "~~~"
  lineStart ++ margin ++ fence ++ blanks ++ word "mermaid" ++ wordEdge ++ many any ++ sign "\n" ++
    group "content" (manyLazy (one fun _ ↦ true)) ++ sign "\n" ++ margin ++ fence

/-- The inner text of every closed block. -/
def closedBlocks (t : Text) : List Text := (closedBlockPattern.findAll t).map (·.group "content")

end DiagramRepair
