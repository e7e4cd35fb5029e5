import DiagramRepair.Repair.Context
import DiagramRepair.Rule.Cleanup

namespace DiagramRepair

structure RepairRule where
  name : String
  apply : RepairContext → NoteNames → Text → Except RepairFault (Text × NoteNames)

namespace RepairRule

def perLine (name : String) (f : Text → Text) : RepairRule :=
  ⟨name, fun _ names content ↦ .ok (Text.mapLines f content, names)⟩

def onFlowcharts (name : String)
    (f : RepairContext → NoteNames → Text → Text × NoteNames) : RepairRule :=
  ⟨name, fun ctx names content ↦
    .ok (if ctx.kind.isFlowchart then f ctx names content else (content, names))⟩

def mergeTrailingComments : RepairRule :=
  ⟨"merge_trailing_comments", fun _ names content ↦ do
    let ls ← ((Text.lines content).mapM Rule.mergeTrailingComments).mapError .template
    return (Text.unlines ls, names)⟩

def fixInvalidArrows : RepairRule :=
  onFlowcharts "fix_invalid_arrows" fun _ names content ↦ (Rule.fixInvalidArrows content, names)

def convertNoteDirectives : RepairRule :=
  onFlowcharts "convert_note_directives" fun ctx names content ↦
    Rule.convertNoteDirectives ctx.ids.ids names content

def splitConcatenatedLabels : RepairRule :=
  ⟨"split_concatenated_labels", fun ctx names content ↦ do
    return (← (Rule.splitConcatenatedLabels ctx.ids content).mapError .node, names)⟩

def all [Nonces] : List RepairRule :=
  [perLine "strip_placeholder_artifacts" Rule.stripBracketMarks,
    perLine "remove_empty_label_artifacts" Rule.removeEmptyLabels,
    perLine "normalize_smart_quotes" Rule.straightenQuotes,
    perLine "fix_nested_label_quotes" stripInnerQuotes,
    mergeTrailingComments,
    fixInvalidArrows,
    perLine "fix_reversed_edges" Rule.fixReversedEdges,
    perLine "fix_misplaced_pipes" Rule.fixMisplacedPipes,
    perLine "fix_malformed_arrow_labels" Rule.fixMalformedArrowLabels,
    perLine "relocate_trailing_labels" Rule.relocateTrailingLabels,
    perLine "convert_inline_group_labels" Rule.convertGroupLabels,
    perLine "merge_double_edge_labels" Rule.mergeDoubleLabels,
    perLine "promote_trailing_double_dash" Rule.promoteDoubleDash,
    perLine "quote_pipe_labels" Line.quotePipeLabels,
    perLine "quote_edge_labels" Rule.quoteEdgeLabels,
    convertNoteDirectives,
    perLine "split_intermediate_nodes" Rule.splitIntermediateNodes,
    splitConcatenatedLabels,
    perLine "wrap_missing_brackets" Rule.wrapMissingBrackets,
    perLine "fix_excessive_brackets" Rule.fixExcessiveBrackets,
    perLine "collapse_duplicate_labels" Rule.collapseDuplicateLabels,
    perLine "quote_unsafe_node_labels" Rule.quoteUnsafeNodeLabels]

def find? [Nonces] (name : String) : Option RepairRule := all.find? (·.name == name)

end RepairRule

end DiagramRepair
