import DiagramRepair.Batch.Run
import DiagramRepair.Report
import DiagramRepair.Service.Request

namespace DiagramRepair

variable [Nonces]

namespace Service

structure Request where
  method : Text
  path : Text
  body : Text

inductive Reply where
  | ok (body : Json)
  | refused (status : Nat) (detail : Text)
  | invalid (problems : List Problem)
  | failed (fault : BatchFault)

def Reply.status : Reply → Nat
  | ok _ => 200
  | refused status _ => status
  | invalid _ => 422
  | failed _ => 500

inductive Endpoint where
  | health | refine | repair | check | batch
  deriving DecidableEq

namespace Endpoint

def all : List Endpoint := [health, refine, repair, check, batch]

def path : Endpoint → Text
  | health => Text.of "/api/health"
  | refine => Text.of "/api/refine"
  | repair => Text.of "/api/repair"
  | check => Text.of "/api/check"
  | batch => Text.of "/api/batch"

def method : Endpoint → Text
  | health => Text.of "GET"
  | _ => Text.of "POST"

/-- The endpoint of that path; a query does not count, and neither do slashes at the end. -/
def ofPath? (path : Text) : Option Endpoint :=
  let plain := ((path.takeWhile (· != '?')).reverse.dropWhile (· == '/')).reverse
  all.find? fun e ↦ e.path = plain

end Endpoint

def noGrammar : Reply := .refused 400 (Text.of "No diagram grammar configured")

def answering {α : Type} (read : Json → Decoded α) (body : Text) (answer : α → Batch Reply) :
    Batch Reply :=
  match readBody body with
  | .error problems => pure (.invalid problems)
  | .ok v =>
    match read v with
    | .error problems => pure (.invalid problems)
    | .ok request => answer request

end Service

structure Service where
  settings : Settings
  checker : Option Checker

namespace Service

def health (s : Service) : Reply :=
  .ok (.record [("status", .string "ok"), ("parser", .string s.settings.parser.name)])

def refineDocument (s : Service) (r : RefineRequest) : Batch Reply := do
  let content ← Batch.ask (DiagramRepair.refine s.checker r.content r.deep)
  let invalid ← match s.checker with
    | none => pure none
    | some c => do
      let n ← Batch.ask (c.countInvalid content)
      pure (some n)
  return .ok (.record [("success", .bool true), ("content", .str content),
    ("changed", .bool (content != r.content)), ("invalid_blocks", .option .nat invalid)])

def repairContent (content : Text) : Batch Reply :=
  let repaired := repairBlock content
  pure (.ok (.record [("success", .bool true), ("content", .str repaired),
    ("changed", .bool (repaired != content))]))

def checkDocument (s : Service) (content : Text) : Batch Reply := do
  match s.checker with
  | none => return noGrammar
  | some c =>
    let issues ← Batch.ask (validate c content)
    let invalid ← Batch.ask (c.countInvalid content)
    return .ok (.record [("success", .bool true), ("invalid_blocks", .nat invalid),
      ("issues", .list Issue.toJson issues),
      ("summary", (IssueCounts.ofIssues issues).toJson), ("blocks", blockSummaries content)])

def repairFolder (s : Service) (r : BatchRequest) : Batch Reply := do
  match s.checker with
  | none => return noGrammar
  | some c =>
    let folder := Path.ofText r.folder
    let rules : BatchRules := ⟨c, s.settings⟩
    match ← rules.fixFolder folder ⟨r.moveErrorFiles, r.errorFolder, r.writeErrorReport⟩ with
    | .error fault@(.notFolder _) => return .refused 404 (fault.message?.getD [])
    | .error fault => return .failed fault
    | .ok report => return .ok (.record (("success", .bool true) :: report.toFields true))

def serve (s : Service) (r : Request) : Endpoint → Batch Reply
  | .health => pure s.health
  | .refine => answering readRefine r.body s.refineDocument
  | .repair => answering readContent r.body repairContent
  | .check => answering readContent r.body s.checkDocument
  | .batch => answering readBatch r.body s.repairFolder

def handle (s : Service) (r : Request) : Batch Reply :=
  match Endpoint.ofPath? r.path with
  | none => pure (.refused 404 (Text.of "Not Found"))
  | some e =>
    if e.method = r.method then s.serve r e
    else pure (.refused 405 (Text.of "Method Not Allowed"))

end Service

end DiagramRepair
