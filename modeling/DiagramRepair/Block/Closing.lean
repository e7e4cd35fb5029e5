import DiagramRepair.Block.Fence
import DiagramRepair.Line.Normal

namespace DiagramRepair

/-- The lines of a block not closed yet, cut where a missing fence would go. -/
structure OpenBlock where
  upToArrow : List Text
  sinceArrow : List Text

namespace OpenBlock

def start (fence : Text) : OpenBlock := ⟨[fence], []⟩

def lines (b : OpenBlock) : List Text := b.upToArrow ++ b.sinceArrow

def add (b : OpenBlock) (line : Text) : OpenBlock :=
  if Line.hasArrow line then ⟨b.lines ++ [line], []⟩ else ⟨b.upToArrow, b.sinceArrow ++ [line]⟩

def forceClosed (b : OpenBlock) : List Text := b.upToArrow ++ Fence.closing :: b.sinceArrow

end OpenBlock

def closeLines (normalize : Text → Text) : Option OpenBlock → List Text → List Text
  | none, [] => []
  | some b, [] => b.forceClosed
  | block?, line :: rest =>
    if Fence.isOpening line then
      let opened := closeLines normalize (some (.start (Fence.normalizeOpening line))) rest
      match block? with
      | none => opened
      | some b => b.forceClosed ++ opened
    else
      match block? with
      | none => line :: closeLines normalize none rest
      | some b =>
        if Fence.isClosing line then b.lines ++ line :: closeLines normalize none rest
        else closeLines normalize (some (b.add (normalize line))) rest

/-- Normalizes every diagram block of a document and closes those that are left open. -/
def closeBlocks (t : Text) (normalize : Text → Text := Line.normalize) : Text :=
  Text.unlines (closeLines normalize none (Text.lines t))

end DiagramRepair
