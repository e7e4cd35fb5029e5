import DiagramRepair.Checker

namespace DiagramRepair

inductive Severity where
  | error | warning | info
  deriving DecidableEq

namespace Severity

def name : Severity → String
  | error => "error"
  | warning => "warning"
  | info => "info"

end Severity

structure Issue where
  severity : Severity
  message : Text
  block : Option Nat

namespace Issue

def unclosed (index : Nat) : Issue :=
  ⟨.warning, Text.of "Diagram block is not closed", some index⟩

def blank (index : Nat) : Issue := ⟨.info, Text.of "Diagram block is empty", some index⟩

def rejected (index : Nat) : Issue :=
  ⟨.error, Text.of "Diagram block failed to parse", some index⟩

end Issue

/-- The issue of one block, if any. The grammar is asked only about closed blocks with text. -/
def validateBlock (c : Checker) (index : Nat) (b : Block) : Asking (Option Issue) := do
  if !b.isClosed then return some (.unclosed index)
  if Text.isAllBlank b.content then return some (.blank index)
  return if ← c.accepts b.content then none else some (.rejected index)

def validateBlocks (c : Checker) : (index : Nat) → List Block → Asking (List Issue)
  | _, [] => pure []
  | index, b :: rest => do
    let issue ← validateBlock c index b
    let issues ← validateBlocks c (index + 1) rest
    return issue.toList ++ issues

def validate (c : Checker) (document : Text) : Asking (List Issue) :=
  validateBlocks c 0 (Segment.blocks document)

structure IssueCounts where
  total : Nat
  errors : Nat
  warnings : Nat
  info : Nat

namespace IssueCounts

def ofIssues (issues : List Issue) : IssueCounts :=
  let count (s : Severity) := issues.countP (·.severity = s)
  ⟨issues.length, count .error, count .warning, count .info⟩

def isValid (n : IssueCounts) : Bool := n.errors == 0

end IssueCounts

end DiagramRepair
