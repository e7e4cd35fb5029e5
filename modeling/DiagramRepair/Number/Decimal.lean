import DiagramRepair.Number.Integer

namespace DiagramRepair.Number

structure Decimal where
  digits : Nat
  exponent : Int
  deriving DecidableEq

structure Fraction where
  num : Nat
  den : Nat

namespace Fraction

def ofPower (m : Nat) (base : Nat) (e : Int) : Fraction :=
  match e with
  | .ofNat k => ⟨m * base.pow k, 1⟩
  | .negSucc k => ⟨m, base.pow (k + 1)⟩

def lt (a b : Fraction) : Bool := a.num * b.den < b.num * a.den

def le (a b : Fraction) : Bool := a.num * b.den ≤ b.num * a.den

def distance (a b : Fraction) : Fraction :=
  let x := a.num * b.den
  let y := b.num * a.den
  ⟨(x - y) + (y - x), a.den * b.den⟩

def magnitude (a : Fraction) : Int :=
  if a.den ≤ a.num then ((Nat.toDigits 10 (a.num / a.den)).length : Int)
  else
    let zeros := ((List.range 400).find? fun j ↦ a.den ≤ a.num * Nat.pow 10 (j + 1)).getD 400
    Int.negOfNat zeros

end Fraction

/-- The numbers that round to `m · 2 ^ q`: an interval, with its ends if `m` is even. -/
structure RoundingInterval where
  low : Fraction
  high : Fraction
  closed : Bool

namespace RoundingInterval

/-- Below a power of two the neighbours are twice as dense, unless `q` is as low as it gets. -/
def ofBinary (m : Nat) (q : Int) : RoundingInterval where
  low := .ofPower (4 * m - (if m = Nat.pow 2 52 && q ≠ -1074 then 1 else 2)) 2 (q - 2)
  high := .ofPower (4 * m + 2) 2 (q - 2)
  closed := m % 2 == 0

def contains (i : RoundingInterval) (a : Fraction) : Bool :=
  if i.closed then i.low.le a && a.le i.high else i.low.lt a && a.lt i.high

end RoundingInterval

def nearestWith? (value : Fraction) (interval : RoundingInterval) (places : Nat) :
    Option Decimal :=
  let e := value.magnitude - places
  let scaled := match e with
    | .ofNat k => value.num / (value.den * Nat.pow 10 k)
    | .negSucc k => value.num * Nat.pow 10 (k + 1) / value.den
  let fits (d : Nat) := 0 < d && interval.contains (.ofPower d 10 e)
  match fits scaled, fits (scaled + 1) with
  | false, false => none
  | true, false => some ⟨scaled, e⟩
  | false, true => some ⟨scaled + 1, e⟩
  | true, true =>
    let below := value.distance (.ofPower scaled 10 e)
    let above := value.distance (.ofPower (scaled + 1) 10 e)
    if below.lt above || (!above.lt below && scaled % 2 == 0) then some ⟨scaled, e⟩
    else some ⟨scaled + 1, e⟩

def shortest (m : Nat) (q : Int) : Decimal :=
  let value := Fraction.ofPower m 2 q
  let interval := RoundingInterval.ofBinary m q
  ((List.range' 1 17).findSome? (nearestWith? value interval)).getD ⟨m, 0⟩

def dropTrailingZeros (t : Text) : Text :=
  (t.reverse.dropWhile (· == '0')).reverse

def Decimal.toText (d : Decimal) : Text :=
  let all := Text.ofNat d.digits
  let digits := dropTrailingZeros all
  let point : Int := d.exponent + all.length
  if -4 < point && point ≤ 16 then
    match point with
    | .ofNat p =>
      if p = 0 then '0' :: '.' :: digits
      else if digits.length ≤ p then
        digits ++ List.replicate (p - digits.length) '0' ++ ['.', '0']
      else digits.take p ++ '.' :: digits.drop p
    | .negSucc k => '0' :: '.' :: List.replicate (k + 1) '0' ++ digits
  else
    let e := point - 1
    let size := Text.ofNat e.natAbs
    let fraction := if digits.length ≤ 1 then [] else '.' :: digits.tail
    digits.take 1 ++ fraction ++ 'e' :: (if e < 0 then '-' else '+') ::
      (if size.length < 2 then '0' :: size else size)

def floatText (x : Float) : Text :=
  if x.isNaN then Text.of "nan"
  else
    let bits := x.toBits.toNat
    let negative := Nat.pow 2 63 ≤ bits
    let biased := bits / Nat.pow 2 52 % Nat.pow 2 11
    let fraction := bits % Nat.pow 2 52
    let size :=
      if biased = 2047 then Text.of "inf"
      else if biased = 0 && fraction = 0 then Text.of "0.0"
      else if biased = 0 then (shortest fraction (-1074)).toText
      else (shortest (Nat.pow 2 52 + fraction) (Int.subNatNat biased 1075)).toText
    if negative then '-' :: size else size

structure Written where
  whole : List Nat
  fraction : List Nat
  exponent : Int

def optionalDigits? (t : Text) : Option (List Nat) := if t.isEmpty then some [] else digits? t

def parseWritten? (t : Text) : Option Written := do
  let (mantissa, afterMark) := t.span fun c ↦ c != 'e' && c != 'E'
  let exponent ← match afterMark with
    | [] => some 0
    | _ :: e =>
      let (negative, size) := splitSign e
      (digits? size).map fun ds ↦ if negative then -(ofDigits ds : Int) else ofDigits ds
  let (whole, afterPoint) := mantissa.span (· != '.')
  let w ← optionalDigits? whole
  let f ← optionalDigits? (afterPoint.drop 1)
  if w.isEmpty && f.isEmpty then none else some ⟨w, f, exponent⟩

def Written.toFloat (n : Written) : Float :=
  let digits := (n.whole ++ n.fraction).dropWhile (· == 0)
  let e := n.exponent - n.fraction.length
  let magnitude := e + digits.length
  if digits.isEmpty || magnitude < -400 then 0.0
  else if 400 < magnitude then 1.0 / 0.0
  else Float.ofScientific (ofDigits digits) (e < 0) e.natAbs

def parseFloat? (t : Text) : Option Float :=
  let (negative, size) := splitSign (trimMargins t)
  let word := size.map Char.toLower
  let value :=
    if word = Text.of "inf" || word = Text.of "infinity" then some (1.0 / 0.0)
    else if word = Text.of "nan" then some (0.0 / 0.0)
    else (parseWritten? size).map Written.toFloat
  value.map fun x ↦ if negative then -x else x

end DiagramRepair.Number
