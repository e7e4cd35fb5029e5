import DiagramRepair.Placeholder.Registry

namespace DiagramRepair

inductive Part where
  | shown (t : Text)
  | hidden (t : Text)

namespace Part

def text : Part → Text
  | shown t | hidden t => t

def conceal : List Part → Registry → Text × Registry
  | [], r => ([], r)
  | shown t :: ps, r =>
    let (rest, r') := conceal ps r
    (t ++ rest, r')
  | hidden t :: ps, r =>
    let (token, r₁) := r.add t
    let (rest, r₂) := conceal ps r₁
    (token ++ rest, r₂)

def ofLines (hides : Text → Bool) (t : Text) : List Part :=
  ((Text.lines t).map fun l ↦ if hides l then hidden l else shown l).intersperse (shown ['\n'])

def ofPattern (p : Pattern) (t : Text) : List Part :=
  (p.pieces t).map fun
    | .plain c => shown [c]
    | .found m => hidden m.whole

end Part

def hideLines [Nonces] (hides : Text → Bool) (tag : String) (t : Text) : Text × Registry :=
  Part.conceal (Part.ofLines hides t) (.fresh tag t)

def hideMatches [Nonces] (p : Pattern) (tag : String) (t : Text) : Text × Registry :=
  Part.conceal (Part.ofPattern p t) (.fresh tag t)

/-- A backslash with the character after it, or an entity code such as `#quot;` or `#35;`. -/
def escapePattern : Pattern :=
  .sign "\\" ++ .any |||
    .sign "#" ++ (.many1 (.one Pattern.isWordChar) ||| .many1 (.one Text.isDecimalDigit)) ++
      .sign ";"

def hideEscapes [Nonces] (t : Text) : Text × Registry := hideMatches escapePattern "ESC" t

/-- A row such as `| --- | :-: |`: cells of dashes with optional colons, divided by bars. -/
def tableSeparatorPattern : Pattern :=
  let cell : Pattern :=
    .blanks ++ .opt (.char ':') ++ .blanks ++ .many1 (.char '-') ++ .blanks ++ .opt (.char ':') ++
      .blanks
  .textStart ++ .blanks ++ .opt (.char '|') ++ .many1 (cell ++ .char '|') ++
    .opt (cell) ++ .blanks ++ .lastLineEnd

def isTableSeparator (line : Text) : Bool :=
  line.contains '|' && tableSeparatorPattern.isMatch line

end DiagramRepair
