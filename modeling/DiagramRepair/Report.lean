import DiagramRepair.Analysis.Summary
import DiagramRepair.Json.Basic
import DiagramRepair.Validation

namespace DiagramRepair

def Issue.toJson (i : Issue) : Json :=
  .record ([("type", .string i.severity.name), ("message", .str i.message)] ++
    i.block.toList.map fun n ↦ ("block_index", .nat n))

def IssueCounts.toJson (n : IssueCounts) : Json :=
  .record [("total", .nat n.total), ("errors", .nat n.errors), ("warnings", .nat n.warnings),
    ("info", .nat n.info), ("valid", .bool n.isValid)]

def BlockSummary.toJson (s : BlockSummary) : Json :=
  .record [("diagram_type", .string s.kind.name), ("line_count", .nat s.lineCount),
    ("edge_count", .nat s.edgeCount), ("node_count", .nat s.nodeIds.length),
    ("node_ids", .list .str s.nodeIds), ("has_subgraph", .bool s.hasSubgraph)]

def blockSummaries (document : Text) : Json :=
  .list (fun b : Block ↦ (BlockSummary.ofContent b.content).toJson) (Segment.blocks document)

end DiagramRepair
