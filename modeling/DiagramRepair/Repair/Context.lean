import DiagramRepair.Analysis.Identifiers
import DiagramRepair.Analysis.Kind
import DiagramRepair.Rule.Note
import DiagramRepair.Rule.Node
import DiagramRepair.Rule.Comment

namespace DiagramRepair

structure RepairContext where
  ids : IdSet
  kind : DiagramKind

def RepairContext.ofContent (content : Text) : RepairContext := ⟨.harvest content, .detect content⟩

inductive RepairFault where
  | template (fault : Template.Fault)
  | node (fault : Rule.NodeFault)

def RepairFault.message : RepairFault → Text
  | template fault => fault.message
  | node .emptyIdentifier => Text.of "string index out of range"

end DiagramRepair
