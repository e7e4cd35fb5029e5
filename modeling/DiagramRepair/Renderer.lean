import DiagramRepair.Checker
import DiagramRepair.Settings

namespace DiagramRepair

inductive CommandOutcome where
  | exits (code : Int)
  | missing
  | timesOut

structure Renderers where
  command : Text → CommandOutcome
  service : Text → Nat

inductive RendererCall where
  | command (path : Text) (timeout : Float) (source : Text)
  | post (url body : Text)

namespace Settings

def renderUrl (s : Settings) : Text :=
  (s.rendererUrl.reverse.dropWhile (· == '/')).reverse ++ Text.of "/mermaid/svg"

def verdict? (s : Settings) (r : Renderers) : Option (Text → Verdict) :=
  match s.parser with
  | .none => none
  | .mmdc => some fun content ↦
    match r.command content with
    | .exits code => .ok (code == 0)
    | .missing => .error (.missingRenderer s.mmdcPath)
    | .timesOut => .error .timedOut
  | .http => some fun content ↦ .ok (r.service content < 400)

def checker? (s : Settings) (r : Renderers) : Option Checker :=
  (s.verdict? r).map Checker.ofFunction

def rendererCall? (s : Settings) (content : Text) : Option RendererCall :=
  match s.parser with
  | .none => none
  | .mmdc => some (.command s.mmdcPath s.requestTimeout content)
  | .http => some (.post s.renderUrl content)

end Settings

def ParserFault.message? : ParserFault → Option Text
  | .missingRenderer path => some (Text.of "mmdc not available at " ++ path)
  | .raised | .timedOut => none

end DiagramRepair
