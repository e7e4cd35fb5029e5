import DiagramRepair.Block.Fence

namespace DiagramRepair

/-- A fenced diagram. Only a block at the end of a document can lack its closing fence. -/
structure Block where
  opening : Text
  inner : List Text
  closing : Option Text
  deriving DecidableEq

namespace Block

def isClosed (b : Block) : Bool := b.closing.isSome

def lines (b : Block) : List Text := b.opening :: b.inner ++ b.closing.toList

def content (b : Block) : Text := Text.unlines b.inner

def withContent (b : Block) (content : Text) : Block where
  opening := b.opening
  inner := if content.isEmpty then [] else Text.lines content
  closing := some (b.closing.getD Fence.closing)

def render (b : Block) : Text := Text.unlines b.lines

end Block

inductive Segment where
  | text (t : Text)
  | diagram (b : Block)
  deriving DecidableEq

namespace Segment

def render : Segment → Text
  | text t => t
  | diagram b => b.render

def block? : Segment → Option Block
  | text _ => none
  | diagram b => some b

def renderAll (segments : List Segment) : Text := Text.unlines (segments.map render)

def ofPlain (plain : List Text) : List Segment :=
  if plain.isEmpty then [] else [text (Text.unlines plain)]

/-- What the lines read so far belong to. -/
inductive Reading where
  | plain (lines : List Text)
  | diagram (opening : Text) (inner : List Text)

def ofLines : Reading → List Text → List Segment
  | .plain ls, [] => ofPlain ls
  | .diagram opening inner, [] => [diagram ⟨opening, inner, none⟩]
  | .plain ls, l :: rest =>
    if Fence.isOpening l then ofPlain ls ++ ofLines (.diagram l []) rest
    else ofLines (.plain (ls ++ [l])) rest
  | .diagram opening inner, l :: rest =>
    if Fence.isClosing l then diagram ⟨opening, inner, some l⟩ :: ofLines (.plain []) rest
    else ofLines (.diagram opening (inner ++ [l])) rest

/-- Cuts a document into segments. -/
def split (t : Text) : List Segment := ofLines (.plain []) (Text.lines t)

def blocks (t : Text) : List Block := (split t).filterMap block?

end Segment

end DiagramRepair
