import DiagramRepair.Batch.Run
import DiagramRepair.CommandLine.Command
import DiagramRepair.Json.Parser
import DiagramRepair.Json.Printer
import DiagramRepair.Renderer
import DiagramRepair.Report

namespace DiagramRepair.CommandLine

variable [Nonces]

inductive ServiceAnswer where
  | reply (status : Nat) (body : Text)
  | unreachable (reason : Text)

structure Surroundings where
  environment : Environment
  renderers : Renderers
  service : ServiceAnswer

inductive OutsideCall where
  | renderer (call : RendererCall)
  | service (method url : Text) (body : Json)
  | serve (app host : Text) (portNumber : Int)

/-- Why a command breaks off. -/
inductive Fault where
  | settings (fault : SettingsFault)
  | file (fault : FileFault)
  | batch (fault : BatchFault)
  /-- A service answered with something other than JSON. -/
  | notJson
  | noFields (reply : Json)
  | noContent (reply : Json)
  | contentNotText (content : Json)

def kindName : Json → String
  | .null => "NoneType"
  | .bool _ => "bool"
  | .int _ => "int"
  | .float _ => "float"
  | .str _ => "str"
  | .arr _ => "list"
  | .obj _ => "dict"

def Fault.message? : Fault → Option Text
  | settings fault => fault.message?
  | file fault => some fault.message
  | batch fault => fault.message?
  | notJson => none
  | noFields v => some (Text.of ("'" ++ kindName v ++ "' object has no attribute 'get'"))
  | noContent (.obj _) => some (Text.of "'content'")
  | noContent (.arr _) => some (Text.of "list indices must be integers or slices, not str")
  | noContent (.str _) => some (Text.of "string indices must be integers, not 'str'")
  | noContent v => some (Text.of ("'" ++ kindName v ++ "' object is not subscriptable"))
  | contentNotText v => some (Text.of ("data must be str, not " ++ kindName v))

inductive Ending where
  | printed (v : Json)
  | refused (r : Refusal)
  | silent
  | broken (fault : Fault)

structure Outcome where
  ending : Ending
  files : FileTree
  calls : List OutsideCall

structure State where
  files : FileTree
  calls : List OutsideCall := []

abbrev Run := ExceptT Ending (StateM State)

def finish {α : Type} (e : Ending) : Run α := throw e

def say {α : Type} (fields : List (String × Json)) : Run α := finish (.printed (.record fields))

def complain {α : Type} (message : Text) : Run α :=
  say [("status", .string "error"), ("error", .str message)]

def call (c : OutsideCall) : Run Unit := modify fun s ↦ { s with calls := s.calls ++ [c] }

def batchOf {α : Type} (settings : Settings) (b : Batch α) : Run α := do
  let s ← get
  let (a, done) := b.run { files := s.files }
  set { s with files := done.files }
  for content in done.asked do
    if let some c := settings.rendererCall? content then call (.renderer c)
  return a

def ask {α : Type} (settings : Settings) (q : Asking α) : Run α := batchOf settings (Batch.ask q)

def readDocument (file : Text) : Run Text := do
  match (← get).files.readText (Path.ofText file) with
  | .ok text => return text
  | .error (.file fault@⟨.nullByte, _⟩) => finish (.broken (.file fault))
  | .error fault =>
    complain (Text.of "Cannot read " ++ file ++ Text.of ": " ++ fault.message)

def writeDocument (file : Text) (content : Text) : Run Unit := do
  let s ← get
  let (written, files) := s.files.writeText (Path.ofText file) content
  set { s with files := files }
  if let .error fault := written then finish (.broken (.file fault))

def readSettings (w : Surroundings) (parser : Option ParserChoice) : Run Settings := do
  match Settings.ofEnvironment w.environment with
  | .error fault => finish (.broken (.settings fault))
  | .ok settings => return { settings with parser := parser.getD settings.parser }

def errorDetail (body : Text) : Except Fault Text :=
  match Json.parseMessage? body with
  | none => .ok body
  | some (.obj fields) =>
    .ok (((Json.obj fields).lookup? (Text.of "detail")).getD (.string "Unknown error")).display
  | some v => .error (.noFields v)

def request (w : Surroundings) (service : Text) (endpoint : String) (body : Json) : Run Json := do
  let base := (service.reverse.dropWhile (· == '/')).reverse
  call (.service (Text.of "POST") (base ++ Text.of endpoint) body)
  match w.service with
  | .unreachable reason =>
    complain (Text.of "Connection failed: " ++ reason ++
      Text.of ". Is the mermaid-mender service running?")
  | .reply status body =>
    if 400 ≤ status then
      match errorDetail body with
      | .error fault => finish (.broken fault)
      | .ok detail =>
        complain (Text.of "API error (" ++ Text.ofNat status ++ Text.of "): " ++ detail)
    else
      match Json.parseMessage? body with
      | none => finish (.broken .notJson)
      | some v => return v

def serviceOf (i : Invocation) : Option Text := i.service.filter fun t ↦ !t.isEmpty

def statusOk : String × Json := ("status", .string "ok")

def refineCommand (w : Surroundings) (service : Option Text) (file : Text) (deep : Bool)
    (parser : Option ParserChoice) (write : Bool) : Run Unit := do
  let text ← readDocument file
  let content ← match service with
    | some base =>
      let reply ← request w base "/refine"
        (.record [("content", .str text), ("deep", .bool deep)])
      match reply.lookup? (Text.of "content") with
      | some v => pure v
      | none => finish (.broken (.noContent reply))
    | none =>
      if deep then
        let settings ← readSettings w parser
        let refined ← ask settings (DiagramRepair.refine (settings.checker? w.renderers) text)
        pure (.str refined)
      else pure (.str ((DiagramRepair.refine none text false).run []).1)
  let changed := match content with
    | .str s => s != text
    | _ => true
  if write && changed then
    match content with
    | .str s => writeDocument file s
    | v => finish (.broken (.contentNotText v))
  say [statusOk, ("file", .str file), ("changed", .bool changed),
    ("written", .bool (write && changed)), ("content", if write then .null else content)]

def repairCommand (w : Surroundings) (service : Option Text) (file : Text) : Run Unit := do
  let text ← readDocument file
  match service with
  | some base => finish (.printed (← request w base "/repair" (.record [("content", .str text)])))
  | none =>
    let content := repairBlock text
    say [statusOk, ("changed", .bool (content != text)), ("content", .str content)]

def latexCommand (file : Text) (write : Bool) : Run Unit := do
  let text ← readDocument file
  let content := MathDelimiter.cleanup text
  if write && content != text then writeDocument file content
  say [statusOk, ("changed", .bool (content != text)),
    ("content", if write then .null else .str content)]

def checkCommand (w : Surroundings) (service : Option Text) (file : Text)
    (parser : Option ParserChoice) : Run Unit := do
  let text ← readDocument file
  match service with
  | some base => finish (.printed (← request w base "/check" (.record [("content", .str text)])))
  | none =>
    let settings ← readSettings w parser
    let blocks := ("blocks", blockSummaries text)
    match settings.checker? w.renderers with
    | none => say [statusOk, ("validated", .bool false), blocks]
    | some c =>
      let issues ← ask settings (validate c text)
      say [statusOk, ("validated", .bool true), ("issues", .list Issue.toJson issues),
        ("summary", (IssueCounts.ofIssues issues).toJson), blocks]

def batchCommand (w : Surroundings) (service : Option Text) (folder : Text)
    (parser : Option ParserChoice) (options : BatchOptions) : Run Unit := do
  match service with
  | some base =>
    finish (.printed (← request w base "/batch" (.record [("folder", .str folder),
      ("move_error_files", .option .bool options.moveErrorFiles),
      ("error_folder", .option .str options.errorFolder),
      ("write_error_report", .option .bool options.writeErrorReport)])))
  | none =>
    let settings ← readSettings w parser
    match settings.checker? w.renderers with
    | none => complain (Text.of "Batch repair needs a diagram parser (--parser mmdc|http)")
    | some c =>
      let path := Path.ofText folder
      match ← batchOf settings ((⟨c, settings⟩ : BatchRules).fixFolder path options) with
      | .error fault@(.notFolder _) => complain (fault.message?.getD [])
      | .error fault => finish (.broken (.batch fault))
      | .ok report => say (statusOk :: report.toFields false)

def serveCommand (w : Surroundings) (host : Option Text) (portNumber : Option Int) :
    Run Unit := do
  let settings ← readSettings w none
  call (.serve (Text.of "backend.main:app")
    ((host.filter fun t ↦ !t.isEmpty).getD settings.host)
    ((portNumber.filter (· != 0)).getD settings.portNumber))

def runCommand (w : Surroundings) (i : Invocation) : Run Unit :=
  let service := serviceOf i
  match i.command with
  | .refine file deep parser write => refineCommand w service file deep parser write
  | .repair file => repairCommand w service file
  | .latex file write => latexCommand file write
  | .check file parser => checkCommand w service file parser
  | .batch folder parser move errorFolder report =>
    batchCommand w service folder parser ⟨move, errorFolder, report⟩
  | .serve host portNumber => serveCommand w host portNumber

def run (w : Surroundings) (files : FileTree) (args : List Text) : Outcome :=
  match parse args with
  | .error refusal => ⟨.refused refusal, files, []⟩
  | .ok invocation =>
    let (result, s) := (runCommand w invocation).run { files := files }
    let ending := match result with
      | .error ending => ending
      | .ok () => .silent
    ⟨ending, s.files, s.calls⟩

def Ending.exitStatus? : Ending → Option Nat
  | printed _ => some 0
  | refused .help => some 0
  | refused .usage => some 2
  | silent | broken _ => none

end DiagramRepair.CommandLine
