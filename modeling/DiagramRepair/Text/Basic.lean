namespace DiagramRepair

abbrev Text := List Char

namespace Text

def of (s : String) : Text := s.toList

def toString (t : Text) : String := String.ofList t

/-- White space: the control characters that separate, the spaces of every width, and the line
and paragraph separators. -/
def isBlank (c : Char) : Bool :=
  let n := c.toNat
  (9 ≤ n && n ≤ 13) || (28 ≤ n && n ≤ 32) || n == 0x85 || n == 0xa0 || n == 0x1680 ||
    (0x2000 ≤ n && n ≤ 0x200a) || n == 0x2028 || n == 0x2029 || n == 0x202f || n == 0x205f ||
    n == 0x3000

def trimStart (t : Text) : Text := t.dropWhile isBlank

def trimEnd (t : Text) : Text := (t.reverse.dropWhile isBlank).reverse

def trim (t : Text) : Text := trimEnd (trimStart t)

def isAllBlank (t : Text) : Bool := t.all isBlank

def lines (t : Text) : List Text := t.splitOn '\n'

def unlines (ls : List Text) : Text := ['\n'].intercalate ls

def mapLines (f : Text → Text) (t : Text) : Text := unlines ((lines t).map f)

def includes (needle : Text) : Text → Bool
  | [] => needle.isEmpty
  | c :: t => needle.isPrefixOf (c :: t) || includes needle t

def dropQuotes (t : Text) : Text := t.filter (· != '"')

def startsWith (t start : Text) : Bool := start.isPrefixOf t

def endsWith (t ending : Text) : Bool := ending.isSuffixOf t

def isProperPrefix (p t : Text) : Bool := p.isPrefixOf t && p.length < t.length

def ofNat (n : Nat) : Text := Nat.toDigits 10 n

def hex (width n : Nat) : Text :=
  let digits := Nat.toDigits 16 n
  List.replicate (width - digits.length) '0' ++ digits

end Text

end DiagramRepair
