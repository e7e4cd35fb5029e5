import DiagramRepair.Batch.Report
import DiagramRepair.File.Tree
import DiagramRepair.MathDelimiter
import DiagramRepair.Refine
import DiagramRepair.Settings

namespace DiagramRepair

variable [Nonces]

/-- Someone who is told about every document. Each call can fail, going by what was told before. -/
structure Listener where
  fails : List FileRepair → FileRepair → Bool := fun _ _ ↦ false
  told : List FileRepair := []

namespace Listener

/-- Tells the listener about a document. A call that fails has been made, too. -/
def call (l : Listener) (r : FileRepair) : Except Unit Unit × Listener :=
  (if l.fails l.told r then .error () else .ok (), { l with told := l.told ++ [r] })

/-- Calls the listeners in order. When one fails, the next is called all the same. -/
def callAll (r : FileRepair) : List Listener → List Listener
  | [] => []
  | l :: rest =>
    match l.call r with
    | (.ok (), l) => l :: callAll r rest
    | (.error (), l) => l :: callAll r rest

end Listener

/-- What the runs of one batch share: the files, what the grammar was asked, the documents that
were told of, and the listeners. -/
structure BatchState where
  files : FileTree
  asked : Asked := []
  heard : List FileRepair := []
  listeners : List Listener := []

abbrev Batch := StateM BatchState

structure BatchRules where
  checker : Checker
  settings : Settings

structure BatchOptions where
  moveErrorFiles : Option Bool := none
  errorFolder : Option Text := none
  writeErrorReport : Option Bool := none

def Batch.ask {α : Type} (q : Asking α) : Batch α := fun s ↦
  let (a, asked) := q.run s.asked
  (a, { s with asked := asked })

def Batch.onFiles {α : Type} (f : FileTree → α × FileTree) : Batch α := fun s ↦
  let (a, files) := f s.files
  (a, { s with files := files })

/-- Why a run over a folder ends without a report. -/
inductive BatchFault where
  | notFolder (folder : Path)
  | nullByte
  | garbled (name : Text)

namespace BatchFault

def message? : BatchFault → Option Text
  | notFolder folder => some (Text.of "Not a directory: " ++ folder.toText)
  | nullByte => some (Text.of "embedded null byte")
  | garbled _ => none

end BatchFault

def Batch.notify (r : FileRepair) : Batch Unit := modify fun s ↦
  { s with heard := s.heard ++ [r], listeners := Listener.callAll r s.listeners }

namespace BatchRules

def repairedText (b : BatchRules) (document : Text) : Asking Text :=
  let content :=
    if b.settings.fixMathDelimiters then MathDelimiter.cleanup document else document
  refine (some b.checker) content b.settings.deepRepair

def fixFile (b : BatchRules) (path : Path) : Batch (Except DocumentFault FileRepair) := do
  match (← get).files.readText path with
  | .error fault => return .error fault
  | .ok document =>
    let before ← Batch.ask (b.checker.countInvalid document)
    if before = 0 then return .ok { file := path.toText, skipped := true }
    let content ← Batch.ask (b.repairedText document)
    let modified := content ≠ document
    let written ←
      if modified then Batch.onFiles (·.writeText path content) else pure (.ok ())
    match written with
    | .error fault => return .error (.file fault)
    | .ok () =>
      let after ← Batch.ask (b.checker.countInvalid content)
      return .ok
        { file := path.toText, modified := modified, invalidBefore := before
          invalidAfter := after }

/-- Moves a document into the error folder, unless a file of its name is there. Folders that were
made before a failure stay. -/
def moveToErrorFolder (path errorFolder : Path) (t : FileTree) :
    Except FileFault (Option Path) × FileTree :=
  match t.ensureFolders errorFolder with
  | (.error fault, t) => (.error fault, t)
  | (.ok (), t) =>
    let target := errorFolder.child path.name
    if t.exists? target then (.ok none, t)
    else
      match t.moveFile path target with
      | (.ok (), t) => (.ok (some target), t)
      | (.error fault, t) => (.error fault, t)

def failure (path : Path) (fault : DocumentFault) : FileRepair :=
  { file := path.toText, error := some fault.message }

/-- One document of a folder, with the errors it gave rise to. Only a fault that the system reports
is taken for one of the document. -/
def fixListed (b : BatchRules) (move : Bool) (errorFolder path : Path) :
    Batch (Except BatchFault (FileRepair × List FileError)) := do
  match ← b.fixFile path with
  | .error fault =>
    if fault.isReported then return .ok (failure path fault, [⟨path.toText, fault.message⟩])
    else return .error .nullByte
  | .ok r =>
    if r.invalidAfter = 0 || !move then return .ok (r, [])
    match ← Batch.onFiles (moveToErrorFolder path errorFolder) with
    | .ok target => return .ok ({ r with movedTo := target.map Path.toText }, [])
    | .error fault =>
      if fault.isReported then
        return .ok (r, [⟨path.toText, Text.of "Move failed: " ++ fault.message⟩])
      else return .error .nullByte

def addResult (report : BatchReport) (name : Text) (r : FileRepair) (errors : List FileError) :
    BatchReport :=
  { report with
    processed := report.processed + 1
    modifiedCount := report.modifiedCount + (if r.modified then 1 else 0)
    errors := report.errors ++ errors
    unresolved :=
      report.unresolved ++ (if 0 < r.invalidAfter then [⟨name, r.invalidAfter⟩] else [])
    files := report.files ++ [r] }

def fixAll (b : BatchRules) (move : Bool) (errorFolder : Path) (stop : List FileRepair → Bool) :
    List Path → BatchReport → Batch (Except BatchFault BatchReport)
  | [], report => pure (.ok report)
  | path :: rest, report => do
    if stop (← get).heard then return .ok { report with cancelled := true }
    match ← b.fixListed move errorFolder path with
    | .error fault => return .error fault
    | .ok (r, errors) =>
      Batch.notify r
      b.fixAll move errorFolder stop rest (addResult report path.name r errors)

def reportPath (folder : Path) : Path :=
  let name := if folder.name.isEmpty then Text.of "Root" else folder.name
  folder.child (Text.of "mermaid_error_" ++ name ++ Text.of ".md")

def reportText (unresolved : List Unresolved) : Text :=
  ['\n', '\n', '\n'].intercalate
    (unresolved.map fun u ↦ Text.of "[[" ++ u.name ++ Text.of "]]-[" ++ Text.ofNat u.count ++ [']'])

def writeReport (folder : Path) (report : BatchReport) :
    Batch (Except BatchFault BatchReport) := do
  if report.unresolved.isEmpty then return .ok report
  let path := reportPath folder
  let mount := (← get).files.mount
  match report.unresolved.find? fun u ↦ u.name ∈ mount.garbled with
  | some u =>
    -- The file is opened, and emptied, before its text is encoded.
    match ← Batch.onFiles (·.writeText path []) with
    | .ok () => return .error (.garbled u.name)
    | .error _ => return .ok report
  | none =>
    match ← Batch.onFiles (·.writeText path (reportText report.unresolved)) with
    | .ok () => return .ok { report with errorReport := some path.toText }
    | .error _ => return .ok report

def errorFolder (b : BatchRules) (folder : Path) (o : BatchOptions) : Path :=
  match o.errorFolder with
  | some name => folder.child (if name.isEmpty then b.settings.errorFolder else name)
  | none => folder.child b.settings.errorFolder

/-- Repairs the Markdown documents below a folder. -/
def fixFolder (b : BatchRules) (folder : Path) (o : BatchOptions := {})
    (stop : List FileRepair → Bool := fun _ ↦ false) :
    Batch (Except BatchFault BatchReport) := do
  let t := (← get).files
  if !t.isFolder folder then return .error (.notFolder folder)
  let errorFolder := b.errorFolder folder o
  let paths := (t.markdownBelow folder).filter fun p ↦ !p.isBelow errorFolder
  let move := o.moveErrorFiles.getD b.settings.moveErrorFiles
  match ← b.fixAll move errorFolder stop paths { folder := folder.toText } with
  | .error fault => return .error fault
  | .ok report =>
    if o.writeErrorReport.getD b.settings.writeErrorReport then writeReport folder report
    else return .ok report

end BatchRules

end DiagramRepair
