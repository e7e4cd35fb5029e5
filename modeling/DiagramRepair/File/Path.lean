import DiagramRepair.Text.Basic

namespace DiagramRepair

/-- A path by its names. The root is the slashes it starts with, none if it is relative; two dots are
kept as a name, as what they mean depends on the files. -/
structure Path where
  root : Text
  parts : List Text
  deriving DecidableEq

namespace Path

/-- Two slashes at the start are a root of their own; any other number counts as one. -/
def rootOf (t : Text) : Text :=
  match (t.takeWhile (· == '/')).length with
  | 0 => []
  | 2 => ['/', '/']
  | _ => ['/']

def ofText (t : Text) : Path :=
  ⟨rootOf t, (t.splitOn '/').filter fun p ↦ p != [] && p != ['.']⟩

def toText (p : Path) : Text :=
  let t := p.root ++ ['/'].intercalate p.parts
  if t.isEmpty then ['.'] else t

def join (p q : Path) : Path := if q.root = [] then ⟨p.root, p.parts ++ q.parts⟩ else q

def child (p : Path) (name : Text) : Path := p.join (ofText name)

/-- The last name, or no text for the folder itself. -/
def name (p : Path) : Text := p.parts.getLast?.getD []

def isMarkdown (p : Path) : Bool := p.name.endsWith (Text.of ".md")

def isBelow (p folder : Path) : Bool :=
  p.root == folder.root && folder.parts.isPrefixOf p.parts &&
    folder.parts.length < p.parts.length

def hasNull (p : Path) : Bool := p.parts.any fun name ↦ name.contains '\x00'

end Path

end DiagramRepair
