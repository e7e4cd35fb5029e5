import DiagramRepair.Text.Digit
import DiagramRepair.Pattern.Search

namespace DiagramRepair

/-- The random numbers that tell the tokens of one registry from those of others, drawn anew for
every text of which parts are hidden. -/
class Nonces where
  draw (tag : String) (t : Text) : Fin 0x100000000

def Nonces.digits [Nonces] (tag : String) (t : Text) : Text := Text.hex 8 (draw tag t)

@[reducible] def Nonces.zeros : Nonces := ⟨fun _ _ ↦ 0⟩

structure Registry where
  tag : Text
  nonce : Text
  pieces : Array Text := #[]

namespace Registry

def tokenOpen : Char := '\ue000'

def tokenClose : Char := '\ue001'

def size (r : Registry) : Nat := r.pieces.size

def token (r : Registry) (n : Nat) : Text :=
  tokenOpen :: (r.tag ++ '_' :: r.nonce ++ '_' :: Text.ofNat n ++ [tokenClose])

def add (r : Registry) (piece : Text) : Text × Registry :=
  (r.token r.size, { r with pieces := r.pieces.push piece })

def digitsValue (t : Text) : Nat := t.foldl (fun n c ↦ 10 * n + (Text.digitValue? c).getD 0) 0

def tokenPattern (r : Registry) : Pattern :=
  .char tokenOpen ++ .lit (r.tag ++ '_' :: r.nonce ++ ['_']) ++
    .group "number" (.many1 (.one Text.isDecimalDigit)) ++ .char tokenClose

/-- The piece a token stands for; a number that was not given out, or is not written as this
registry writes it, stands for itself. -/
def resolve (r : Registry) (m : Match) : Text :=
  let n := digitsValue (m.group "number")
  if r.token n == m.whole then r.pieces[n]?.getD m.whole else m.whole

def restore (r : Registry) (t : Text) : Text := r.tokenPattern.replaceAll r.resolve t

def fresh [Nonces] (tag : String) (t : Text) : Registry :=
  ⟨Text.of tag, Nonces.digits tag t, #[]⟩

end Registry

end DiagramRepair
