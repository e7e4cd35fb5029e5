import DiagramRepair.Placeholder.Hiding

namespace DiagramRepair

structure Brackets where
  opens : CharClass
  closes : CharClass

namespace Brackets

def ofChars (o c : Char) : Brackets := ⟨(· == o), (· == c)⟩

def square : Brackets := ofChars '[' ']'

def closingAfter? (b : Brackets) : (depth : Nat) → Text → Option Nat
  | _, [] => none
  | depth, c :: t =>
    if b.opens c then (closingAfter? b (depth + 1) t).map (· + 1)
    else if b.closes c then
      if depth ≤ 1 then some 0 else (closingAfter? b (depth - 1) t).map (· + 1)
    else (closingAfter? b depth t).map (· + 1)

def closing? (b : Brackets) : Text → Option Nat
  | [] => none
  | c :: t => if b.opens c then (b.closingAfter? 1 t).map (· + 1) else none

def findClosing? (b : Brackets) (t : Text) (start : Nat) : Option Nat :=
  (b.closing? (t.drop start)).map (start + ·)

end Brackets

/-- A text as it is met from left to right: characters outside, and whole balanced regions. -/
inductive Stretch where
  | outside (c : Char)
  | region (t : Text)

namespace Stretch

def text : Stretch → Text
  | outside c => [c]
  | region t => t

def ofTextFrom (b : Brackets) : (skip : Nat) → Text → List Stretch
  | _, [] => []
  | skip + 1, _ :: t => ofTextFrom b skip t
  | 0, c :: t =>
    match b.closing? (c :: t) with
    | some n => region ((c :: t).take (n + 1)) :: ofTextFrom b n t
    | none => outside c :: ofTextFrom b 0 t

def ofText (b : Brackets) (t : Text) : List Stretch := ofTextFrom b 0 t

def spansFrom (i : Nat) : List Stretch → List (Nat × Nat)
  | [] => []
  | outside _ :: ss => spansFrom (i + 1) ss
  | region t :: ss => (i, i + t.length - 1) :: spansFrom (i + t.length) ss

def toPart : Stretch → Part
  | outside c => .shown [c]
  | region t => .hidden t

end Stretch

namespace Brackets

def regions (b : Brackets) (t : Text) : List (Nat × Nat) := Stretch.spansFrom 0 (Stretch.ofText b t)

end Brackets

def hideBracketRegions [Nonces] (t : Text) : Text × Registry :=
  Part.conceal ((Stretch.ofText .square t).map Stretch.toPart) (.fresh "BR" t)

def quotedLabel? (t : Text) : Option Nat :=
  match t with
  | '[' :: '"' :: _ =>
    match Brackets.square.closing? t with
    | some n => if 3 ≤ n && t[n - 1]? == some '"' then some n else none
    | none => none
  | _ => none

def plainLabel (region : Text) : Text :=
  '[' :: '"' :: Text.dropQuotes ((region.drop 2).dropLast.dropLast) ++ ['"', ']']

def stripInnerQuotesFrom : (skip : Nat) → Text → Text
  | _, [] => []
  | skip + 1, _ :: t => stripInnerQuotesFrom skip t
  | 0, c :: t =>
    match quotedLabel? (c :: t) with
    | some n => plainLabel ((c :: t).take (n + 1)) ++ stripInnerQuotesFrom n t
    | none => c :: stripInnerQuotesFrom 0 t

/-- Drops the double quotes inside quoted labels: `A["x E["y"] z"]` becomes `A["x E[y] z"]`. -/
def stripInnerQuotes (t : Text) : Text := stripInnerQuotesFrom 0 t

end DiagramRepair
