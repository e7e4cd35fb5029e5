import DiagramRepair.File.Path
import DiagramRepair.Text.Quoted
import DiagramRepair.Text.Utf8

namespace DiagramRepair

inductive FileEntry where
  | folder
  | file (bytes : Bytes)
  deriving DecidableEq

abbrev Location := List Text

/-- What becomes of a change to the files. A change that is refused leaves them as they are; one that
is torn breaks off when so many bytes are written. -/
inductive Fate where
  | made
  | refused (reason : Text)
  | torn (reason : Text) (count : Nat)
  deriving DecidableEq

/-- What holds of the files all the time. -/
structure Mount where
  working : Location := []
  locked : List Location := []
  /-- The names that are not Unicode, so that no text can be written that holds them. -/
  garbled : List Text := []

/-- Files and folders, and what becomes of the next changes; all changes after these are made. -/
structure FileTree where
  entries : List (Location × FileEntry) := []
  mount : Mount := {}
  fates : List Fate := []

inductive FileCause where
  | missing | occupied | notFolder | isFolder | denied
  | system (reason : Text)
  | nullByte
  deriving DecidableEq

structure FileFault where
  cause : FileCause
  path : Path

namespace FileFault

def message (f : FileFault) : Text :=
  let named (reason : String) := Text.of reason ++ Text.of ": " ++ Text.quoted f.path.toText
  match f.cause with
  | .missing => named "[Errno 2] No such file or directory"
  | .occupied => named "[Errno 17] File exists"
  | .notFolder => named "[Errno 20] Not a directory"
  | .isFolder => named "[Errno 21] Is a directory"
  | .denied => named "[Errno 13] Permission denied"
  | .system reason => reason
  | .nullByte => Text.of "embedded null byte"

def isReported (f : FileFault) : Bool := f.cause ≠ .nullByte

end FileFault

inductive DocumentFault where
  | file (fault : FileFault)
  | encoding (fault : Text.Utf8.Fault)

namespace DocumentFault

def message : DocumentFault → Text
  | file fault => fault.message
  | encoding fault => fault.message

def isReported : DocumentFault → Bool
  | file fault => fault.isReported
  | encoding _ => true

end DocumentFault

namespace FileTree

def entry? (t : FileTree) (loc : Location) : Option FileEntry :=
  if loc = [] then some .folder else t.entries.lookup loc

def put (t : FileTree) (loc : Location) (e : FileEntry) : FileTree :=
  { t with entries :=
      if (t.entries.lookup loc).isSome then
        t.entries.map fun (l, old) ↦ if l = loc then (l, e) else (l, old)
      else t.entries ++ [(loc, e)] }

def remove (t : FileTree) (loc : Location) : FileTree :=
  { t with entries := t.entries.filter fun (l, _) ↦ l ≠ loc }

def putBelow (t : FileTree) (loc : Location) (e : FileEntry) : FileTree :=
  let above := (List.range loc.length).map fun n ↦ loc.take n
  let folders := above.filter fun l ↦ (t.entry? l).isNone
  (folders.foldl (fun t l ↦ t.put l .folder) t).put loc e

/-- Walks on from a location. All places on the way must be folders; the last name need not
exist. -/
def walk (t : FileTree) : Location → List Text → Except FileCause Location
  | here, [] => .ok here
  | here, name :: rest =>
    match t.entry? here with
    | none => .error .missing
    | some (.file _) => .error .notFolder
    | some .folder => walk t (if name = ['.', '.'] then here.dropLast else here ++ [name]) rest

def start (t : FileTree) (p : Path) : Location := if p.root = [] then t.mount.working else []

def locate (t : FileTree) (p : Path) : Except FileFault Location :=
  if p.hasNull then .error ⟨.nullByte, p⟩
  else (t.walk (t.start p) p.parts).mapError fun c ↦ ⟨c, p⟩

def at? (t : FileTree) (p : Path) : Option FileEntry :=
  match t.locate p with
  | .ok loc => t.entry? loc
  | .error _ => none

def exists? (t : FileTree) (p : Path) : Bool := (t.at? p).isSome

def isFolder (t : FileTree) (p : Path) : Bool := t.at? p == some .folder

def readBytes (t : FileTree) (p : Path) : Except FileFault Bytes := do
  let loc ← t.locate p
  match t.entry? loc with
  | none => .error ⟨.missing, p⟩
  | some .folder => .error ⟨.isFolder, p⟩
  | some (.file bytes) => if t.mount.locked.contains loc then .error ⟨.denied, p⟩ else .ok bytes

def readText (t : FileTree) (p : Path) : Except DocumentFault Text := do
  let bytes ← (t.readBytes p).mapError .file
  let text ← (Text.Utf8.decode bytes).mapError .encoding
  return Text.unifyLineEnds text

abbrev Result := Except FileFault Unit × FileTree

def next (t : FileTree) : FileTree := { t with fates := t.fates.tail }

def change (t : FileTree) (p : Path) (whole : FileTree → FileTree)
    (part : Nat → FileTree → FileTree) : Result :=
  match t.fates.headD .made with
  | .made => (.ok (), whole t.next)
  | .refused reason => (.error ⟨.system reason, p⟩, t.next)
  | .torn reason count => (.error ⟨.system reason, p⟩, part count t.next)

/-- Writes a file, which is emptied first. -/
def writeText (t : FileTree) (p : Path) (text : Text) : Result :=
  match t.locate p with
  | .error fault => (.error fault, t)
  | .ok loc =>
    if t.entry? loc = some .folder then (.error ⟨.isFolder, p⟩, t)
    else
      let bytes := Text.Utf8.encode text
      t.change p (·.put loc (.file bytes)) fun count t ↦ t.put loc (.file (bytes.take count))

def makeFolder (t : FileTree) (p : Path) : Result :=
  match t.locate p with
  | .error fault => (.error fault, t)
  | .ok loc =>
    if (t.entry? loc).isSome then (.error ⟨.occupied, p⟩, t)
    else t.change p (·.put loc .folder) fun _ t ↦ t

/-- A fault does not count if the folder is there all the same. -/
def settle (p : Path) : Result → Result
  | (.ok (), t) => (.ok (), t)
  | (.error fault, t) => if t.isFolder p then (.ok (), t) else (.error fault, t)

/-- Makes a folder and all missing ones above it; what is made before a failure stays. The names
are given in reverse. -/
def ensureFoldersRev (root : Text) : List Text → FileTree → Result
  | [], t => settle ⟨root, []⟩ (t.makeFolder ⟨root, []⟩)
  | name :: above, t =>
    let p : Path := ⟨root, (name :: above).reverse⟩
    match t.makeFolder p with
    | (.error ⟨.missing, _⟩, t) =>
      match ensureFoldersRev root above t with
      | (.ok (), t) => settle p (t.makeFolder p)
      | failed => failed
    | result => settle p result

def ensureFolders (t : FileTree) (p : Path) : Result := ensureFoldersRev p.root p.parts.reverse t

/-- Moves a file to a free place. Where it has to be copied, a copy can be left behind beside it. -/
def moveFile (t : FileTree) (source target : Path) : Result :=
  match t.locate source, t.locate target with
  | .error fault, _ | .ok _, .error fault => (.error fault, t)
  | .ok loc, .ok goal =>
    match t.entry? loc with
    | none => (.error ⟨.missing, source⟩, t)
    | some .folder => (.error ⟨.isFolder, source⟩, t)
    | some (.file bytes) =>
      t.change target (fun t ↦ (t.remove loc).put goal (.file bytes)) fun count t ↦
        t.put goal (.file (bytes.take count))

def markdownBelow (t : FileTree) (folder : Path) : List Path :=
  match t.locate folder with
  | .error _ => []
  | .ok loc =>
    let below := t.entries.filterMap fun (l, _) ↦
      if loc.isPrefixOf l && loc.length < l.length then
        some (⟨folder.root, folder.parts ++ l.drop loc.length⟩ : Path)
      else none
    (below.filter Path.isMarkdown).mergeSort fun p q ↦ ¬ q.parts < p.parts

end FileTree

end DiagramRepair
