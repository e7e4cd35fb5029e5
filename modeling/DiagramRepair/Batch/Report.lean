import DiagramRepair.Json.Basic

namespace DiagramRepair

structure FileRepair where
  file : Text
  modified : Bool := false
  skipped : Bool := false
  invalidBefore : Nat := 0
  invalidAfter : Nat := 0
  movedTo : Option Text := none
  error : Option Text := none

structure FileError where
  file : Text
  message : Text

structure Unresolved where
  name : Text
  count : Nat

structure BatchReport where
  folder : Text
  processed : Nat := 0
  modifiedCount : Nat := 0
  cancelled : Bool := false
  errors : List FileError := []
  unresolved : List Unresolved := []
  files : List FileRepair := []
  errorReport : Option Text := none

namespace FileRepair

def toJson (r : FileRepair) : Json :=
  .record [("file", .str r.file), ("modified", .bool r.modified), ("skipped", .bool r.skipped),
    ("invalid_before", .nat r.invalidBefore), ("invalid_after", .nat r.invalidAfter),
    ("moved_to", .option .str r.movedTo), ("error", .option .str r.error)]

end FileRepair

namespace BatchReport

def errorCount (r : BatchReport) : Nat := r.errors.length

def toFields (r : BatchReport) (withFiles : Bool) : List (String × Json) :=
  [("folder", .str r.folder), ("processed", .nat r.processed),
    ("modified_count", .nat r.modifiedCount), ("cancelled", .bool r.cancelled),
    ("errors", .list (fun e ↦
      .record [("file", .str e.file), ("message", .str e.message)]) r.errors),
    ("mermaid_errors", .list (fun u ↦
      .record [("filename", .str u.name), ("count", .nat u.count)]) r.unresolved)] ++
  (if withFiles then [("files", .list FileRepair.toJson r.files)] else []) ++
  [("error_report", .option .str r.errorReport), ("error_count", .nat r.errorCount)]

end BatchReport

end DiagramRepair
