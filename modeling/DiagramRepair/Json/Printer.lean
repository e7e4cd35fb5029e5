import DiagramRepair.Json.Basic
import DiagramRepair.Number.Decimal
import DiagramRepair.Text.Quoted

namespace DiagramRepair.Json

def intText (n : Int) : Text :=
  if n < 0 then '-' :: Text.ofNat n.natAbs else Text.ofNat n.natAbs

def unitEscape (n : Nat) : Text := '\\' :: 'u' :: Text.hex 4 n

def escapeChar (ascii : Bool) (c : Char) : Text :=
  let n := c.toNat
  if c = '"' || c = '\\' then ['\\', c]
  else if c = '\n' then ['\\', 'n']
  else if c = '\r' then ['\\', 'r']
  else if c = '\t' then ['\\', 't']
  else if c = '\x08' then ['\\', 'b']
  else if c = '\x0c' then ['\\', 'f']
  else if n < 32 then unitEscape n
  else if !ascii || n < 127 then [c]
  else if n < 0x10000 then unitEscape n
  else unitEscape (0xd800 + (n - 0x10000) / 0x400) ++ unitEscape (0xdc00 + (n - 0x10000) % 0x400)

def quote (ascii : Bool) (s : Text) : Text := '"' :: s.flatMap (escapeChar ascii) ++ ['"']

def numberText (x : Float) : Text :=
  if x.isNaN then Text.of "NaN"
  else if x.isInf then Text.of (if x < 0 then "-Infinity" else "Infinity")
  else Number.floatText x

def separated (parts : List Text) : Text := (Text.of ", ").intercalate parts

mutual

def print (ascii : Bool) : Json → Text
  | null => Text.of "null"
  | bool b => Text.of (if b then "true" else "false")
  | int n => intText n
  | float x => numberText x
  | str s => quote ascii s
  | arr items => '[' :: separated (printItems ascii items) ++ [']']
  | obj fields => '\x7b' :: separated (printFields ascii fields) ++ ['\x7d']

def printItems (ascii : Bool) : List Json → List Text
  | [] => []
  | v :: vs => print ascii v :: printItems ascii vs

def printFields (ascii : Bool) : List (Text × Json) → List Text
  | [] => []
  | (name, v) :: fs =>
    (quote ascii name ++ Text.of ": " ++ print ascii v) :: printFields ascii fs

end

mutual

def literal : Json → Text
  | null => Text.of "None"
  | bool b => Text.of (if b then "True" else "False")
  | int n => intText n
  | float x => Number.floatText x
  | str s => Text.quoted s
  | arr items => '[' :: separated (literalItems items) ++ [']']
  | obj fields => '\x7b' :: separated (literalFields fields) ++ ['\x7d']

def literalItems : List Json → List Text
  | [] => []
  | v :: vs => literal v :: literalItems vs

def literalFields : List (Text × Json) → List Text
  | [] => []
  | (name, v) :: fs => (Text.quoted name ++ Text.of ": " ++ literal v) :: literalFields fs

end

def display : Json → Text
  | str s => s
  | v => literal v

end DiagramRepair.Json
