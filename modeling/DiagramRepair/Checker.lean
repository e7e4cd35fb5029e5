import DiagramRepair.Block.Closed

namespace DiagramRepair

inductive ParserFault where
  | raised
  | missingRenderer (path : Text)
  | timedOut
  deriving DecidableEq

abbrev Verdict := Except ParserFault Bool

def Verdict.accepts : Verdict → Bool
  | .ok accepted => accepted
  | .error _ => false

abbrev Asked := List Text

abbrev Asking := StateM Asked

structure Checker where
  /-- The verdict on a text, which may depend on what was asked before. -/
  parse : Asked → Text → Verdict

namespace Checker

def ofFunction (f : Text → Verdict) : Checker := ⟨fun _ ↦ f⟩

def accepts (c : Checker) (content : Text) : Asking Bool :=
  fun asked ↦ ((c.parse asked content).accepts, asked ++ [content])

def countRejected (c : Checker) : List Text → Asking Nat
  | [] => pure 0
  | content :: rest => do
    let accepted ← c.accepts content
    let n ← c.countRejected rest
    return if accepted then n else n + 1

def countInvalid (c : Checker) (document : Text) : Asking Nat :=
  c.countRejected (closedBlocks document)

end Checker

end DiagramRepair
