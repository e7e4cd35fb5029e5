import DiagramRepair.Text.Basic
import DiagramRepair.Text.Alphanumeric

namespace DiagramRepair

abbrev CharClass := Char → Bool

inductive Pattern where
  | empty
  | one (cls : CharClass)
  | seq (first second : Pattern)
  | alt (first second : Pattern)
  /-- Any number of rounds of a body that takes at least one character each time. -/
  | star (greedy : Bool) (body : Pattern)
  | group (name : String) (body : Pattern)
  | look (wanted : Bool) (body : Pattern)
  | place (test : Option Char → Text → Bool)

namespace Pattern

instance : Append Pattern := ⟨seq⟩
instance : OrOp Pattern := ⟨alt⟩

def isIdentChar (c : Char) : Bool := c.isAlphanum || c == '_'

def isWordChar (c : Char) : Bool := Text.isAlphanumeric c || c == '_'

def among (s : String) : CharClass := fun c ↦ s.toList.contains c

/-- The same letter in either case; `i`, `k` and `s` have further forms outside ASCII. -/
def sameLetter (l c : Char) : Bool :=
  c.toLower == l.toLower ||
    match l.toLower with
    | 'i' => c.toNat == 0x130 || c.toNat == 0x131
    | 'k' => c.toNat == 0x212a
    | 's' => c.toNat == 0x17f
    | _ => false

def isFoldedIdentChar (c : Char) : Bool :=
  isIdentChar c || sameLetter 'i' c || sameLetter 'k' c || sameLetter 's' c

def char (c : Char) : Pattern := one (· == c)

def lit (t : Text) : Pattern := t.foldr (fun c p ↦ seq (char c) p) empty

def sign (s : String) : Pattern := lit s.toList

def word (s : String) : Pattern := s.toList.foldr (fun c p ↦ seq (one (sameLetter c)) p) empty

def oneOf (s : String) : Pattern := one (among s)

def noneOf (s : String) : Pattern := one fun c ↦ !among s c

def any : Pattern := one fun c ↦ c != '\n'

def blank : Pattern := one Text.isBlank

def many (p : Pattern) : Pattern := star true p

def manyLazy (p : Pattern) : Pattern := star false p

def many1 (p : Pattern) : Pattern := p ++ many p

def many1Lazy (p : Pattern) : Pattern := p ++ manyLazy p

def opt (p : Pattern) : Pattern := p ||| empty

def blanks : Pattern := many blank

def blanks1 : Pattern := many1 blank

def ahead (p : Pattern) : Pattern := look true p

def notAhead (p : Pattern) : Pattern := look false p

def precededBy (cls : CharClass) : Pattern := place fun prev _ ↦ prev.any cls

def notPrecededBy (cls : CharClass) : Pattern := place fun prev _ ↦ !prev.any cls

def textStart : Pattern := place fun prev _ ↦ prev.isNone

def lineStart : Pattern := place fun prev _ ↦ prev.all (· == '\n')

def textEnd : Pattern := place fun _ rest ↦ rest.isEmpty

def lastLineEnd : Pattern := place fun _ rest ↦ rest == [] || rest == ['\n']

def wordEdge : Pattern :=
  place fun prev rest ↦ prev.any isWordChar != rest.head?.any isWordChar

def ident : Pattern := many1 (one isIdentChar)

end Pattern

end DiagramRepair
