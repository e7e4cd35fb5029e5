import DiagramRepair.Text.Basic
import DiagramRepair.Text.Digit

namespace DiagramRepair.Number

/-- Blanks allowed around a number: all but the four information separators. -/
def isMargin (c : Char) : Bool := Text.isBlank c && !(0x1c ≤ c.toNat && c.toNat ≤ 0x1f)

def trimMargins (t : Text) : Text := ((t.dropWhile isMargin).reverse.dropWhile isMargin).reverse

def digitRun? : (afterDigit : Bool) → Text → Option (List Nat)
  | afterDigit, [] => if afterDigit then some [] else none
  | afterDigit, c :: t =>
    if c = '_' then if afterDigit then digitRun? false t else none
    else
      match Text.digitValue? c with
      | none => none
      | some d => (digitRun? true t).map (d :: ·)

def digits? (t : Text) : Option (List Nat) := digitRun? false t

def ofDigits (ds : List Nat) : Nat := ds.foldl (10 * · + ·) 0

def splitSign : Text → Bool × Text
  | '-' :: t => (true, t)
  | '+' :: t => (false, t)
  | t => (false, t)

def parseInt? (t : Text) : Option Int :=
  let (negative, rest) := splitSign (trimMargins t)
  (digits? rest).map fun ds ↦ if negative then -(ofDigits ds : Int) else ofDigits ds

inductive IntegerFault where
  | malformed
  | tooLong (digits : Nat)
  deriving DecidableEq

def maxDigits : Nat := 4300

def readInt (t : Text) : Except IntegerFault Int :=
  match digits? (splitSign (trimMargins t)).2, parseInt? t with
  | some ds, some n => if maxDigits < ds.length then .error (.tooLong ds.length) else .ok n
  | _, _ => .error .malformed

end DiagramRepair.Number
