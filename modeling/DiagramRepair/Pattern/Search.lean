import DiagramRepair.Pattern.Basic

namespace DiagramRepair

/-- A place in a text, with what the named groups of a pattern have captured so far. A capture is
kept as the text from its start and the text from its end. -/
structure Place where
  before : Text
  after : Text
  captures : List (String × Text × Text)

namespace Pattern

variable {α : Type}

/-- Rounds of a step, at most one for each character that was left at the start. -/
def rounds (greedy : Bool) (step : Place → (Place → Option α) → Option α) :
    Text → Place → (Place → Option α) → Option α
  | [], s, k => k s
  | _ :: fuel, s, k =>
    match greedy with
    | true => step s (fun s' ↦ rounds greedy step fuel s' k) <|> k s
    | false => k s <|> step s (fun s' ↦ rounds greedy step fuel s' k)

/-- The first way to match at a place after which the continuation succeeds. -/
def run : {α : Type} → Pattern → Place → (Place → Option α) → Option α
  | _, empty, s, k => k s
  | _, one cls, s, k =>
    match s.after with
    | [] => none
    | c :: t => if cls c then k { s with before := c :: s.before, after := t } else none
  | _, seq p q, s, k => run p s fun s' ↦ run q s' k
  | _, alt p q, s, k => run p s k <|> run q s k
  | _, star greedy p, s, k => rounds greedy (run p) s.after s k
  | _, group name p, s, k =>
    run p s fun s' ↦ k { s' with captures := (name, s.after, s'.after) :: s'.captures }
  | _, look wanted p, s, k => if (run p s some).isSome == wanted then k s else none
  | _, place test, s, k => if test s.before.head? s.after then k s else none

end Pattern

structure Match where
  before : Text
  whole : Text
  after : Text
  captures : List (String × Text × Text)

namespace Match

def group? (m : Match) (name : String) : Option Text :=
  (m.captures.lookup name).map fun (start, stop) ↦ start.take (start.length - stop.length)

def group (m : Match) (name : String) : Text := (m.group? name).getD []

end Match

inductive Piece where
  | plain (c : Char)
  | found (m : Match)

namespace Pattern

def matchAt? (p : Pattern) (before after : Text) : Option Match :=
  p.run ⟨before, after, []⟩ fun s ↦
    some ⟨before, after.take (after.length - s.after.length), s.after, s.captures⟩

def match? (p : Pattern) (t : Text) : Option Match := p.matchAt? [] t

def isMatch (p : Pattern) (t : Text) : Bool := (p.match? t).isSome

def fullMatch? (p : Pattern) (t : Text) : Option Match := (p ++ textEnd).match? t

def searchFrom? (p : Pattern) (before : Text) : Text → Option Match
  | [] => p.matchAt? before []
  | c :: t =>
    match p.matchAt? before (c :: t) with
    | some m => some m
    | none => searchFrom? p (c :: before) t

def search? (p : Pattern) (t : Text) : Option Match := p.searchFrom? [] t

def occursIn (p : Pattern) (t : Text) : Bool := (p.search? t).isSome

def piecesFrom (p : Pattern) : Nat → Text → Text → List Piece
  | _, _, [] => []
  | skip + 1, before, c :: t => piecesFrom p skip (c :: before) t
  | 0, before, c :: t =>
    match p.matchAt? before (c :: t) with
    | some m =>
      if m.whole.isEmpty then .plain c :: piecesFrom p 0 (c :: before) t
      else .found m :: piecesFrom p (m.whole.length - 1) (c :: before) t
    | none => .plain c :: piecesFrom p 0 (c :: before) t

def pieces (p : Pattern) (t : Text) : List Piece := p.piecesFrom 0 [] t

def findAll (p : Pattern) (t : Text) : List Match :=
  (p.pieces t).filterMap fun
    | .plain _ => none
    | .found m => some m

def replaceAll (p : Pattern) (f : Match → Text) (t : Text) : Text :=
  (p.pieces t).flatMap fun
    | .plain c => [c]
    | .found m => f m

def replaceFirst (p : Pattern) (f : Match → Text) (t : Text) : Text :=
  match p.search? t with
  | none => t
  | some m => m.before.reverse ++ f m ++ m.after

end Pattern

end DiagramRepair
