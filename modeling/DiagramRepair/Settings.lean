import DiagramRepair.Number.Decimal
import DiagramRepair.Text.Quoted

namespace DiagramRepair

inductive ParserChoice where
  | none
  | mmdc
  | http
  deriving DecidableEq

namespace ParserChoice

def name : ParserChoice → String
  | none => "none"
  | mmdc => "mmdc"
  | http => "http"

def ofName? (t : Text) : Option ParserChoice :=
  [none, mmdc, http].find? fun p ↦ Text.of p.name = t

end ParserChoice

structure Settings where
  parser : ParserChoice := .none
  mmdcPath : Text := Text.of "mmdc"
  rendererUrl : Text := Text.of "https://kroki.io"
  requestTimeout : Float := 30.0
  deepRepair : Bool := true
  fixMathDelimiters : Bool := true
  moveErrorFiles : Bool := false
  errorFolder : Text := Text.of "mermaid-errors"
  writeErrorReport : Bool := false
  host : Text := Text.of "127.0.0.1"
  portNumber : Int := 8766

inductive SettingsFault where
  | badFloat (t : Text)
  | badInteger (t : Text) (fault : Number.IntegerFault)
  | badParser (t : Text)

namespace SettingsFault

def quotedLimit : Nat := 200

def message? : SettingsFault → Option Text
  | badFloat t => some (Text.of "could not convert string to float: " ++ Text.quoted t)
  | badInteger t .malformed =>
    some (Text.of "invalid literal for int() with base 10: " ++ (Text.quoted t).take quotedLimit)
  | badInteger _ (.tooLong n) =>
    some (Text.of "Exceeds the limit (" ++ Text.ofNat Number.maxDigits ++
      Text.of " digits) for integer string conversion: value has " ++ Text.ofNat n ++
      Text.of " digits; use sys.set_int_max_str_digits() to increase the limit")
  | badParser _ => none

end SettingsFault

abbrev Environment := List (Text × Text)

namespace Settings

def readVariable? (env : Environment) (name : String) : Option Text :=
  env.lookup (Text.of "MERMAID_MENDER_" ++ Text.of name)

def readVariableD (env : Environment) (name : String) (default : Text) : Text :=
  (readVariable? env name).getD default

def isYes (t : Text) : Bool :=
  let word := (Text.trim t).map Char.toLower
  word = ['1'] || word = Text.of "true" || word = Text.of "yes" || word = Text.of "on"

def flag (env : Environment) (name : String) (default : Bool) : Bool :=
  ((readVariable? env name).map isYes).getD default

def readTimeout (env : Environment) : Except SettingsFault Float :=
  match readVariable? env "TIMEOUT" with
  | none => .ok ({} : Settings).requestTimeout
  | some t =>
    match Number.parseFloat? t with
    | some x => .ok x
    | none => .error (.badFloat t)

def readPortNumber (env : Environment) : Except SettingsFault Int :=
  match readVariable? env "PORT" with
  | none => .ok ({} : Settings).portNumber
  | some t => (Number.readInt t).mapError (.badInteger t)

def readParser (env : Environment) : Except SettingsFault ParserChoice :=
  match readVariable? env "PARSER" with
  | none => .ok .none
  | some t =>
    match ParserChoice.ofName? t with
    | some p => .ok p
    | none => .error (.badParser t)

def ofEnvironment (env : Environment) : Except SettingsFault Settings := do
  let default : Settings := {}
  let timeout ← readTimeout env
  let portNumber ← readPortNumber env
  let parser ← readParser env
  return {
    parser := parser
    mmdcPath := readVariableD env "MMDC_PATH" default.mmdcPath
    rendererUrl := readVariableD env "RENDERER_URL" default.rendererUrl
    requestTimeout := timeout
    deepRepair := flag env "DEEP_REPAIR" default.deepRepair
    fixMathDelimiters := flag env "FIX_LATEX" default.fixMathDelimiters
    moveErrorFiles := flag env "MOVE_ERROR_FILES" default.moveErrorFiles
    errorFolder := readVariableD env "ERROR_FOLDER" default.errorFolder
    writeErrorReport := flag env "ERROR_REPORT" default.writeErrorReport
    host := readVariableD env "HOST" default.host
    portNumber := portNumber }

end Settings

end DiagramRepair
