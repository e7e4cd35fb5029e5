import DiagramRepair.Text.Basic

namespace DiagramRepair

abbrev Bytes := List UInt8

namespace Text.Utf8

def encode (t : Text) : Bytes := t.flatMap String.utf8EncodeChar

inductive Reason where
  | invalidStart | invalidContinuation | unexpectedEnd
  deriving DecidableEq

structure Fault where
  reason : Reason
  start : Nat
  size : Nat
  first : Nat
  deriving DecidableEq

namespace Fault

def reasonText : Reason → Text
  | .invalidStart => Text.of "invalid start byte"
  | .invalidContinuation => Text.of "invalid continuation byte"
  | .unexpectedEnd => Text.of "unexpected end of data"

def message (f : Fault) : Text :=
  let bytes :=
    if f.size = 1 then
      Text.of "byte 0x" ++ Text.hex 2 f.first ++ Text.of " in position " ++ Text.ofNat f.start
    else
      Text.of "bytes in position " ++ Text.ofNat f.start ++ '-' ::
        Text.ofNat (f.start + f.size - 1)
  Text.of "'utf-8' codec can't decode " ++ bytes ++ Text.of ": " ++ reasonText f.reason

end Fault

/-- What may follow a leading byte: the range of the second byte, how many bytes come after the
first, and the bits that the first contributes. -/
structure Lead where
  low : Nat
  high : Nat
  more : Nat
  bits : Nat

def lead? (b : Nat) : Option Lead :=
  if 0xc2 ≤ b && b ≤ 0xdf then some ⟨0x80, 0xbf, 1, b - 0xc0⟩
  else if b = 0xe0 then some ⟨0xa0, 0xbf, 2, 0⟩
  else if b = 0xed then some ⟨0x80, 0x9f, 2, 0xd⟩
  else if 0xe1 ≤ b && b ≤ 0xef then some ⟨0x80, 0xbf, 2, b - 0xe0⟩
  else if b = 0xf0 then some ⟨0x90, 0xbf, 3, 0⟩
  else if 0xf1 ≤ b && b ≤ 0xf3 then some ⟨0x80, 0xbf, 3, b - 0xf0⟩
  else if b = 0xf4 then some ⟨0x80, 0x8f, 3, 4⟩
  else none

def isContinuation (b : UInt8) : Bool := 0x80 ≤ b.toNat && b.toNat ≤ 0xbf

def shift (bits : Nat) (b : UInt8) : Nat := 64 * bits + (b.toNat - 0x80)

def decodeFrom (p : Nat) : Bytes → Except Fault Text
  | [] => .ok []
  | b :: t =>
    if b.toNat < 0x80 then (decodeFrom (p + 1) t).map (Char.ofNat b.toNat :: ·)
    else
      match lead? b.toNat with
      | none => .error ⟨.invalidStart, p, 1, b.toNat⟩
      | some lead =>
        match t with
        | [] => .error ⟨.unexpectedEnd, p, 1, b.toNat⟩
        | b₁ :: t₁ =>
          if b₁.toNat < lead.low || lead.high < b₁.toNat then
            .error ⟨.invalidContinuation, p, 1, b.toNat⟩
          else
            let n₁ := shift lead.bits b₁
            if lead.more = 1 then (decodeFrom (p + 2) t₁).map (Char.ofNat n₁ :: ·)
            else
              match t₁ with
              | [] => .error ⟨.unexpectedEnd, p, 2, b.toNat⟩
              | b₂ :: t₂ =>
                if !isContinuation b₂ then .error ⟨.invalidContinuation, p, 2, b.toNat⟩
                else
                  let n₂ := shift n₁ b₂
                  if lead.more = 2 then (decodeFrom (p + 3) t₂).map (Char.ofNat n₂ :: ·)
                  else
                    match t₂ with
                    | [] => .error ⟨.unexpectedEnd, p, 3, b.toNat⟩
                    | b₃ :: t₃ =>
                      if !isContinuation b₃ then .error ⟨.invalidContinuation, p, 3, b.toNat⟩
                      else (decodeFrom (p + 4) t₃).map (Char.ofNat (shift n₂ b₃) :: ·)

def decode (bytes : Bytes) : Except Fault Text := decodeFrom 0 bytes

end Text.Utf8

def Text.unifyLineEnds : Text → Text
  | '\r' :: '\n' :: t => '\n' :: Text.unifyLineEnds t
  | '\r' :: t => '\n' :: Text.unifyLineEnds t
  | c :: t => c :: Text.unifyLineEnds t
  | [] => []

end DiagramRepair
