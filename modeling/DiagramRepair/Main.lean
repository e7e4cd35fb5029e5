import DiagramRepair.CommandLine.Run

namespace DiagramRepair.CommandLine

def variableNames : List String :=
  ["PARSER", "MMDC_PATH", "RENDERER_URL", "TIMEOUT", "DEEP_REPAIR", "FIX_LATEX",
    "MOVE_ERROR_FILES", "ERROR_FOLDER", "ERROR_REPORT", "HOST", "PORT"].map ("MERMAID_MENDER_" ++ ·)

def readEnvironment : IO Environment :=
  variableNames.filterMapM fun name ↦ do
    return (← IO.getEnv name).map fun v ↦ (Text.of name, Text.of v)

def surroundings : IO Surroundings := do
  return {
    environment := ← readEnvironment
    renderers := { command := fun _ ↦ .missing, service := fun _ ↦ 503 }
    service := .unreachable (Text.of "no connection") }

def pathText (loc : Location) : String := Text.toString ('/' :: ['/'].intercalate loc)

def takeIn (loc : Location) (t : FileTree) : IO FileTree := do
  let path := (← IO.currentDir) / pathText loc
  if ← path.isDir then return t.putBelow loc .folder
  if ← path.pathExists then
    return t.putBelow loc (.file (← IO.FS.readBinFile path).toList)
  return t

partial def takeInBelow (loc : Location) (t : FileTree) : IO FileTree := do
  let path := (← IO.currentDir) / pathText loc
  if !(← path.isDir) then return t
  (← path.readDir).foldlM (fun t entry ↦ do
    let loc := loc ++ [Text.of entry.fileName]
    takeInBelow loc (← takeIn loc t)) t

def takeInPath (t : FileTree) (p : Path) : IO FileTree := do
  if p.hasNull then return t
  let (loc, t) ← p.parts.foldlM (fun (loc, t) name ↦ do
    let loc := if name = ['.', '.'] then loc.dropLast else loc ++ [name]
    return (loc, ← takeIn loc t)) (t.start p, t)
  takeInBelow loc t

def pathsOf (environment : Environment) (args : List Text) : List Path :=
  match parse args, Settings.ofEnvironment environment with
  | .ok ⟨_, .batch folder _ _ errorFolder _⟩, .ok settings =>
    let rules : BatchRules := ⟨.ofFunction fun _ ↦ .ok true, settings⟩
    let folder := Path.ofText folder
    [folder, rules.errorFolder folder ⟨none, errorFolder, none⟩]
  | .ok i, _ => i.command.path?.toList
  | .error _, _ => []

def takeInPaths (paths : List Path) : IO FileTree := do
  let working := (Path.ofText (Text.of (← IO.currentDir).toString)).parts
  let t : FileTree := { mount := { working } }
  paths.foldlM takeInPath (t.putBelow working .folder)

def bringOut (old new : FileTree) : IO Unit := do
  let here ← IO.currentDir
  for (loc, e) in new.entries do
    if old.entry? loc != some e then
      match e with
      | .folder => IO.FS.createDirAll (here / pathText loc)
      | .file bytes => IO.FS.writeBinFile (here / pathText loc) ⟨bytes.toArray⟩
  for (loc, _) in old.entries do
    if (new.entry? loc).isNone then IO.FS.removeFile (here / pathText loc)

/-- Nonces from one random number and the texts they are drawn for. -/
def drawNonces : IO Nonces := do
  let seed ← IO.rand 0 0xffffffff
  return ⟨fun tag t ↦
    ⟨(seed + (hash (tag ++ t.toString)).toNat) % 0x100000000, Nat.mod_lt _ (by decide)⟩⟩

def runProgram (args : List Text) : IO UInt32 := do
  let _nonces ← drawNonces
  let around ← surroundings
  let files ← takeInPaths (pathsOf around.environment args)
  let outcome := run around files args
  bringOut files outcome.files
  match outcome.ending with
  | .printed v => IO.println (v.print false).toString
  | .broken fault =>
    IO.eprintln ((fault.message?).getD (Text.of "The command broke off.")).toString
  | .refused .usage => IO.eprintln "The arguments do not make a command."
  | .refused .help | .silent => pure ()
  return match outcome.ending, outcome.ending.exitStatus? with
    | .silent, _ => 0
    | _, some status => status.toUInt32
    | _, none => 1

end DiagramRepair.CommandLine

def main (args : List String) : IO UInt32 :=
  DiagramRepair.CommandLine.runProgram (args.map DiagramRepair.Text.of)
