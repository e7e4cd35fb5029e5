import DiagramRepair.Repair.Rule

namespace DiagramRepair

def applyRules (ctx : RepairContext) :
    List RepairRule → NoteNames → Text → Except RepairFault (Text × NoteNames)
  | [], names, t => .ok (t, names)
  | rule :: rules, names, t => do
    let (t, names) ← rule.apply ctx names t
    applyRules ctx rules names t

def repair [Nonces] (content : Text) (rules : List RepairRule := RepairRule.all) :
    Except RepairFault Text := do
  let (shown, escapes) := hideEscapes content
  let (repaired, _) ← applyRules (.ofContent shown) rules {} shown
  return escapes.restore repaired

end DiagramRepair
