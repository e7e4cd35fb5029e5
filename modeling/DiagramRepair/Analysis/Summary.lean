import DiagramRepair.Analysis.Identifiers
import DiagramRepair.Analysis.Kind
import DiagramRepair.Line.Normal

namespace DiagramRepair

open Pattern

structure BlockSummary where
  kind : DiagramKind
  lineCount : Nat
  edgeCount : Nat
  nodeIds : List Text
  hasSubgraph : Bool

namespace BlockSummary

def edgePattern : Pattern := arrowPattern ||| sign "<--" ||| sign "--" ++ blank

def ofContent (content : Text) : BlockSummary :=
  let written := (Text.lines content).filter fun l ↦ !Text.isAllBlank l
  { kind := .detect content
    lineCount := written.length
    edgeCount := (written.filter edgePattern.occursIn).length
    nodeIds := (IdSet.harvest content).ids.mergeSort fun s t ↦ ¬ t < s
    hasSubgraph := written.any Line.hasSubgraph }

end BlockSummary

end DiagramRepair
