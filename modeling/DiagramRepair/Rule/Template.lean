import DiagramRepair.Number.Integer
import DiagramRepair.Text.Quoted

namespace DiagramRepair.Template

inductive Fault where
  | badEscape (c : Char) (position : Nat)
  | unfinishedEscape (position : Nat)
  | octalOutOfRange (digits : Text) (position : Nat)
  | unknownGroup (number position : Nat)
  | unknownGroupName (name : Text)
  | badGroupName (name : Text) (position : Nat)
  | missingOpener (position : Nat)
  | missingCloser (position : Nat)
  | missingGroupName (position : Nat)
  deriving DecidableEq

def Fault.message : Fault → Text
  | badEscape c p => Text.of "bad escape \\" ++ c :: place p
  | unfinishedEscape p => Text.of "bad escape (end of pattern)" ++ place p
  | octalOutOfRange ds p =>
    Text.of "octal escape value \\" ++ ds ++ Text.of " outside of range 0-0o377" ++ place p
  | unknownGroup n p => Text.of "invalid group reference " ++ Text.ofNat n ++ place p
  | unknownGroupName name => Text.of "unknown group name " ++ Text.quoted name
  | badGroupName name p => Text.of "bad character in group name " ++ Text.quoted name ++ place p
  | missingOpener p => Text.of "missing <" ++ place p
  | missingCloser p => Text.of "missing >, unterminated name" ++ place p
  | missingGroupName p => Text.of "missing group name" ++ place p
where
  place (p : Nat) : Text := Text.of " at position " ++ Text.ofNat p

inductive Item where
  | char (c : Char)
  | wholeMatch
  deriving DecidableEq

structure Token where
  position : Nat
  escaped : Bool
  char : Char

def Token.text (k : Token) : Text := if k.escaped then ['\\', k.char] else [k.char]

def Token.digit? (k : Token) : Option Nat :=
  if !k.escaped && k.char.isDigit then some (k.char.toNat - '0'.toNat) else none

def Token.octal? (k : Token) : Option Nat := k.digit?.filter (· < 8)

def tokenize : (position : Nat) → Text → Except Fault (List Token)
  | _, [] => .ok []
  | p, ['\\'] => .error (.unfinishedEscape p)
  | p, '\\' :: c :: t => (tokenize (p + 2) t).map (⟨p, true, c⟩ :: ·)
  | p, c :: t => (tokenize (p + 1) t).map (⟨p, false, c⟩ :: ·)

def controlOf? (c : Char) : Option Char :=
  match c with
  | 'a' => some '\x07'
  | 'b' => some '\x08'
  | 'f' => some '\x0c'
  | 'n' => some '\n'
  | 'r' => some '\r'
  | 't' => some '\t'
  | 'v' => some '\x0b'
  | '\\' => some '\\'
  | _ => none

def isIdentifier : Text → Bool
  | [] => false
  | c :: t =>
    (c == '_' || (Text.isAlphanumeric c && !Text.isDecimalDigit c)) &&
      t.all fun c ↦ c == '_' || Text.isAlphanumeric c

def groupNamed (name : Text) (position : Nat) : Except Fault Item :=
  if isIdentifier name then .error (.unknownGroupName name)
  else
    match Number.parseInt? name with
    | some (.ofNat 0) => .ok .wholeMatch
    | some (.ofNat n) => .error (.unknownGroup n position)
    | _ => .error (.badGroupName name position)

inductive Reading where
  | text
  | opener
  | name (start : Nat) (soFar : Text)

def groupNumbered (n : Nat) (k : Token) : Except Fault Item :=
  if n = 0 then .ok .wholeMatch else .error (.unknownGroup n (k.position + 1))

def items (stop : Nat) : Reading → List Token → Except Fault (List Item)
  | .text, [] => .ok []
  | .opener, [] => .error (.missingOpener stop)
  | .name start soFar, [] =>
    .error (if soFar.isEmpty then .missingGroupName stop else .missingCloser start)
  | .opener, k :: rest =>
    if k.text = ['<'] then items stop (.name (k.position + 1) []) rest
    else .error (.missingOpener k.position)
  | .name start soFar, k :: rest =>
    if k.text = ['>'] then
      if soFar.isEmpty then .error (.missingGroupName start)
      else do
        let item ← groupNamed soFar start
        return item :: (← items stop .text rest)
    else items stop (.name start (soFar ++ k.text)) rest
  | .text, k :: rest =>
    if !k.escaped then (items stop .text rest).map (.char k.char :: ·)
    else if k.char = 'g' then items stop .opener rest
    else if k.char = '0' then
      match rest with
      | k₁ :: k₂ :: rest₂ =>
        match k₁.octal?, k₂.octal? with
        | some d₁, some d₂ => (items stop .text rest₂).map (.char (.ofNat (8 * d₁ + d₂)) :: ·)
        | some d₁, none => (items stop .text (k₂ :: rest₂)).map (.char (.ofNat d₁) :: ·)
        | none, _ => (items stop .text (k₁ :: k₂ :: rest₂)).map (.char '\x00' :: ·)
      | [k₁] =>
        match k₁.octal? with
        | some d₁ => .ok [.char (.ofNat d₁)]
        | none => (items stop .text [k₁]).map (.char '\x00' :: ·)
      | [] => .ok [.char '\x00']
    else if k.char.isDigit then
      let d := k.char.toNat - '0'.toNat
      match rest with
      | k₁ :: k₂ :: rest₂ =>
        match k₁.digit? with
        | none => do return (← groupNumbered d k) :: (← items stop .text (k₁ :: k₂ :: rest₂))
        | some d₁ =>
          match d < 8 && d₁ < 8, k₂.octal? with
          | true, some d₂ =>
            let n := 64 * d + 8 * d₁ + d₂
            if 0o377 < n then .error (.octalOutOfRange [k.char, k₁.char, k₂.char] k.position)
            else (items stop .text rest₂).map (.char (.ofNat n) :: ·)
          | _, _ => do
            return (← groupNumbered (10 * d + d₁) k) :: (← items stop .text (k₂ :: rest₂))
      | [k₁] =>
        match k₁.digit? with
        | none => do return (← groupNumbered d k) :: (← items stop .text [k₁])
        | some d₁ => (groupNumbered (10 * d + d₁) k).map ([·])
      | [] => (groupNumbered d k).map ([·])
    else
      match controlOf? k.char with
      | some c => (items stop .text rest).map (.char c :: ·)
      | none =>
        if k.char.isAlpha then .error (.badEscape k.char k.position)
        else (items stop .text rest).map (.char '\\' :: .char k.char :: ·)

def parse (t : Text) : Except Fault (List Item) := do items t.length .text (← tokenize 0 t)

def expand (whole : Text) (template : List Item) : Text :=
  template.flatMap fun
    | .char c => [c]
    | .wholeMatch => whole

end DiagramRepair.Template
