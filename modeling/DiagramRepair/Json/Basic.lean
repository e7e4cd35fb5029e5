import DiagramRepair.Text.Basic

namespace DiagramRepair

inductive Json where
  | null
  | bool (b : Bool)
  | int (n : Int)
  | float (x : Float)
  | str (s : Text)
  | arr (items : List Json)
  | obj (fields : List (Text × Json))

namespace Json

def string (s : String) : Json := str (Text.of s)

def nat (n : Nat) : Json := int n

def option {α : Type} (encode : α → Json) : Option α → Json
  | none => null
  | some a => encode a

def list {α : Type} (encode : α → Json) (items : List α) : Json := arr (items.map encode)

def record (fields : List (String × Json)) : Json :=
  obj (fields.map fun (name, v) ↦ (Text.of name, v))

def lookup? (name : Text) : Json → Option Json
  | obj fields => fields.lookup name
  | _ => none

end Json

end DiagramRepair
