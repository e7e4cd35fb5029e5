import DiagramRepair.Json.Basic
import DiagramRepair.Number.Decimal

namespace DiagramRepair.Json

abbrev Parser (α : Type) := Text → Option (α × Text)

def isSpace (c : Char) : Bool := c == ' ' || c == '\t' || c == '\n' || c == '\r'

def skipSpace (t : Text) : Text := t.dropWhile isSpace

def hex4? : Text → Option (Nat × Text)
  | a :: b :: c :: d :: t => do
    let a ← Text.hexValue? a
    let b ← Text.hexValue? b
    let c ← Text.hexValue? c
    let d ← Text.hexValue? d
    some (4096 * a + 256 * b + 16 * c + d, t)
  | _ => none

def escapedChar? (c : Char) : Option Char :=
  match c with
  | '"' | '\\' | '/' => some c
  | 'b' => some '\x08'
  | 'f' => some '\x0c'
  | 'n' => some '\n'
  | 'r' => some '\r'
  | 't' => some '\t'
  | _ => none

def lowSurrogate? : Text → Option (Nat × Text)
  | '\\' :: 'u' :: t => (hex4? t).bind fun (n, rest) ↦
    if 0xdc00 ≤ n && n < 0xe000 then some (n, rest) else none
  | _ => none

def unicodeEscape? (t : Text) : Option (Char × Text) := do
  let (n, rest) ← hex4? t
  if 0xd800 ≤ n && n < 0xdc00 then
    match lowSurrogate? rest with
    | some (low, rest) => some (.ofNat (0x10000 + 0x400 * (n - 0xd800) + (low - 0xdc00)), rest)
    | none => some ('\ufffd', rest)
  else if 0xdc00 ≤ n && n < 0xe000 then some ('\ufffd', rest)
  else some (.ofNat n, rest)

def stringBody : (fuel : Nat) → Parser Text
  | 0, _ => none
  | _, [] => none
  | _, '"' :: t => some ([], t)
  | fuel + 1, '\\' :: 'u' :: t => do
    let (c, rest) ← unicodeEscape? t
    let (s, rest) ← stringBody fuel rest
    some (c :: s, rest)
  | fuel + 1, '\\' :: c :: t => do
    let c ← escapedChar? c
    let (s, rest) ← stringBody fuel t
    some (c :: s, rest)
  | fuel + 1, c :: t =>
    if c.toNat < 32 then none else (stringBody fuel t).map fun (s, rest) ↦ (c :: s, rest)

def takeDigits (t : Text) : Text × Text := t.span Char.isDigit

def fractionPart (t : Text) : Text × Text :=
  match t with
  | '.' :: rest =>
    let (ds, rest) := takeDigits rest
    if ds.isEmpty then ([], t) else ('.' :: ds, rest)
  | _ => ([], t)

def exponentPart (t : Text) : Text × Text :=
  match t with
  | c :: rest =>
    if c = 'e' || c = 'E' then
      let (sign, rest) : Text × Text := match rest with
        | '+' :: r => (['+'], r)
        | '-' :: r => (['-'], r)
        | r => ([], r)
      let (ds, rest) := takeDigits rest
      if ds.isEmpty then ([], t) else ('e' :: sign ++ ds, rest)
    else ([], t)
  | [] => ([], t)

def unsigned? (t : Text) : Option (Json × Text) := do
  let (whole, rest) ← match t with
    | '0' :: rest => some (['0'], rest)
    | _ =>
      let (ds, rest) := takeDigits t
      if ds.isEmpty then none else some (ds, rest)
  let (fraction, rest) := fractionPart rest
  let (exponent, rest) := exponentPart rest
  if fraction.isEmpty && exponent.isEmpty then
    some (int ((Number.parseInt? whole).getD 0), rest)
  else some (float ((Number.parseFloat? (whole ++ fraction ++ exponent)).getD 0.0), rest)

def negate : Json → Json
  | int n => int (-n)
  | float x => float (-x)
  | v => v

def words : List (Text × Json) :=
  [(Text.of "null", null), (Text.of "true", bool true), (Text.of "false", bool false),
    (Text.of "NaN", float (0.0 / 0.0)), (Text.of "Infinity", float (1.0 / 0.0)),
    (Text.of "-Infinity", float (-1.0 / 0.0))]

def word? (t : Text) : Option (Json × Text) :=
  (words.find? fun (w, _) ↦ w.isPrefixOf t).map fun (w, v) ↦ (v, t.drop w.length)

def number? : Parser Json
  | '-' :: t => (unsigned? t).map fun (v, rest) ↦ (negate v, rest)
  | t => unsigned? t

def setField (fields : List (Text × Json)) (name : Text) (v : Json) : List (Text × Json) :=
  if fields.any (·.1 == name) then fields.map fun f ↦ if f.1 == name then (name, v) else f
  else fields ++ [(name, v)]

mutual

def value? : (fuel : Nat) → Parser Json
  | 0, _ => none
  | fuel + 1, t =>
    match skipSpace t with
    | '"' :: t => (stringBody t.length.succ t).map fun (s, rest) ↦ (str s, rest)
    | '[' :: t =>
      match skipSpace t with
      | ']' :: rest => some (arr [], rest)
      | t => (items? fuel t).map fun (vs, rest) ↦ (arr vs, rest)
    | '\x7b' :: t =>
      match skipSpace t with
      | '\x7d' :: rest => some (obj [], rest)
      | t => (fields? fuel [] t).map fun (fs, rest) ↦ (obj fs, rest)
    | t => (word? t).or (number? t)

def items? : (fuel : Nat) → Parser (List Json)
  | 0, _ => none
  | fuel + 1, t => do
    let (v, rest) ← value? fuel t
    match skipSpace rest with
    | ']' :: rest => some ([v], rest)
    | ',' :: rest =>
      let (vs, rest) ← items? fuel rest
      some (v :: vs, rest)
    | _ => none

def fields? : (fuel : Nat) → List (Text × Json) → Parser (List (Text × Json))
  | 0, _, _ => none
  | fuel + 1, fields, t =>
    match skipSpace t with
    | '"' :: t => do
      let (name, rest) ← stringBody t.length.succ t
      match skipSpace rest with
      | ':' :: rest =>
        let (v, rest) ← value? fuel rest
        let fields := setField fields name v
        match skipSpace rest with
        | '\x7d' :: rest => some (fields, rest)
        | ',' :: rest => fields? fuel fields rest
        | _ => none
      | _ => none
    | _ => none

end

def parse? (t : Text) : Option Json := do
  let (v, rest) ← value? (t.length + 1) t
  if (skipSpace rest).isEmpty then some v else none

def parseMessage? : Text → Option Json
  | '\ufeff' :: t => parse? t
  | t => parse? t

end DiagramRepair.Json
