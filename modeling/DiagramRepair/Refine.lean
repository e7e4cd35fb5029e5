import DiagramRepair.Block.Closing
import DiagramRepair.Checker
import DiagramRepair.Repair.Run

namespace DiagramRepair

def hideTableRows [Nonces] (document : Text) : Text × Registry :=
  hideLines isTableSeparator "TABLE" document

def refineBaseline [Nonces] (document : Text) : Text :=
  let (shown, rows) := hideTableRows document
  rows.restore (closeBlocks shown)

/-- The repaired text of a block; a text that no rule order can deal with stays as it is. -/
def repairBlock [Nonces] (content : Text) : Text :=
  match repair content with
  | .ok repaired => repaired
  | .error _ => content

def refineSegment [Nonces] (c : Checker) : Segment → Asking Segment
  | .text t => pure (.text t)
  | .diagram b => do
    if ← c.accepts b.content then return .diagram b
    let repaired := repairBlock b.content
    return .diagram (if repaired = b.content then b else b.withContent repaired)

def refineSegments [Nonces] (c : Checker) : List Segment → Asking (List Segment)
  | [] => pure []
  | s :: rest => do
    let s ← refineSegment c s
    let rest ← refineSegments c rest
    return s :: rest

/-- Refines every diagram block of a document. Without a checker, or when `deep` is off, only the
baseline pass runs. -/
def refine [Nonces] (checker : Option Checker) (document : Text) (deep : Bool := true) : Asking Text := do
  let (shown, rows) := hideTableRows document
  let baseline := closeBlocks shown
  match checker, deep with
  | some c, true =>
    let segments ← refineSegments c (Segment.split baseline)
    return rows.restore (Segment.renderAll segments)
  | _, _ => return rows.restore baseline

end DiagramRepair
