import DiagramRepair.Text.Digit
import DiagramRepair.Pattern.Basic

namespace DiagramRepair.CommandLine

inductive Refusal where
  | help
  | usage
  deriving DecidableEq

structure OptionSpec where
  names : List Text
  takes : Option (Text → Bool)
  isHelp : Bool := false

namespace OptionSpec

def flag (name : String) : OptionSpec := ⟨[Text.of name], none, false⟩

def valued (name : String) (accepts : Text → Bool := fun _ ↦ true) : OptionSpec :=
  ⟨[Text.of name], some accepts, false⟩

def help : OptionSpec := ⟨[Text.of "-h", Text.of "--help"], none, true⟩

end OptionSpec

inductive Joined where
  | marked (t : Text)
  | glued (t : Text)

structure Written where
  spec : OptionSpec
  name : Text
  joined : Option Joined

inductive Argument where
  | operand
  | endMark
  | option (w : Written)
  | unknownOption

inductive Operands where
  | none
  | one
  | rest

structure Parsed where
  values : List (Text × Text) := []
  operands : List Text := []
  unclaimed : List Text := []

/-- The names of all options with their specifications. -/
def allNames (specs : List OptionSpec) : List (Text × OptionSpec) :=
  specs.flatMap fun s ↦ s.names.map fun n ↦ (n, s)

def named? (specs : List OptionSpec) (name : Text) : Option OptionSpec :=
  (allNames specs).lookup name

def splitValue (t : Text) : Text × Option Joined :=
  let (name, rest) := t.span (· != '=')
  (name, if rest.isEmpty then none else some (.marked rest.tail))

def candidates (specs : List OptionSpec) (t : Text) : List Written :=
  if t.startsWith ['-', '-'] then
    let (start, joined) := splitValue t
    ((allNames specs).filter fun (n, _) ↦ start.isPrefixOf n).map fun (n, s) ↦ ⟨s, n, joined⟩
  else
    (allNames specs).filterMap fun (n, s) ↦
      if n = t.take 2 then some ⟨s, n, some (.glued (t.drop 2))⟩
      else if t.isPrefixOf n then some ⟨s, n, none⟩
      else none

/-- The text is a minus sign with a number; a line feed at its end does not count. -/
def isNegativeNumber (t : Text) : Bool :=
  match (if t.getLast? = some '\n' then t.dropLast else t) with
  | '-' :: t =>
    let (whole, rest) := t.span Text.isDecimalDigit
    match rest with
    | [] => !whole.isEmpty
    | '.' :: fraction => !fraction.isEmpty && fraction.all Text.isDecimalDigit
    | _ => false
  | _ => false

def classify (specs : List OptionSpec) (t : Text) : Except Refusal Argument :=
  if t = ['-', '-'] then .ok .endMark
  else if !t.startsWith ['-'] || t.length = 1 then .ok .operand
  else
    match named? specs t with
    | some s => .ok (.option ⟨s, t, none⟩)
    | none =>
      let (name, joined) := splitValue t
      match joined.bind fun _ ↦ named? specs name with
      | some s => .ok (.option ⟨s, name, joined⟩)
      | none =>
        match candidates specs t with
        | [w] => .ok (.option w)
        | _ :: _ :: _ => .error .usage
        | [] =>
          .ok (if isNegativeNumber t || t.contains ' ' then .operand else .unknownOption)

def classifyAll (specs : List OptionSpec) : List Text → Except Refusal (List (Text × Argument))
  | [] => .ok []
  | t :: ts => do
    let a ← classify specs t
    match a with
    | .endMark => return (t, a) :: ts.map fun t ↦ (t, .operand)
    | _ => return (t, a) :: (← classifyAll specs ts)

def takeFlag (w : Written) (p : Parsed) : Except Refusal Parsed :=
  if w.spec.isHelp then .error .help else .ok { p with values := p.values ++ [(w.name, [])] }

/-- Text glued to the short help flag stands for further short flags; it is read up to the first
one that there is not. -/
def asksHelp (glued : Text) : Bool := !(glued.dropWhile (· == 'h')).head?.any (Pattern.among "=-")

def takeJoined (w : Written) (joined : Joined) (p : Parsed) : Except Refusal Parsed :=
  match w.spec.takes, joined with
  | some accepts, .marked t | some accepts, .glued t =>
    if accepts t then .ok { p with values := p.values ++ [(w.name, t)] } else .error .usage
  | none, .glued t => .error (if w.spec.isHelp && asksHelp t then .help else .usage)
  | none, .marked _ => .error .usage

inductive Awaiting where
  | anything
  | value (name : Text) (accepts : Text → Bool)
  | endMark

def takeOption (w : Written) (p : Parsed) : Except Refusal (Awaiting × Parsed) :=
  match w.joined, w.spec.takes with
  | some joined, _ => (takeJoined w joined p).map fun p ↦ (.anything, p)
  | none, none => (takeFlag w p).map fun p ↦ (.anything, p)
  | none, some accepts => .ok (.value w.name accepts, p)

def takeArgument (operands : Operands) (awaiting : Awaiting) (p : Parsed) (t : Text)
    (a : Argument) : Except Refusal (Awaiting × Parsed) :=
  let unclaimed : Parsed := { p with unclaimed := p.unclaimed ++ [t] }
  match a, operands, p.operands, awaiting with
  | _, .rest, _ :: _, _ => .ok (.anything, { p with operands := p.operands ++ [t] })
  | .option w, _, _, _ => takeOption w p
  | .unknownOption, _, _, _ => .ok (.anything, unclaimed)
  | .operand, .rest, [], _ => .ok (.anything, { p with operands := [t] })
  | .operand, .one, [], _ => .ok (.endMark, { p with operands := [t] })
  | .operand, _, _, _ => .ok (.anything, unclaimed)
  | .endMark, .rest, [], _ => .ok (.anything, { p with operands := [t] })
  | .endMark, .one, [], _ => .ok (.anything, p)
  | .endMark, .one, _, .endMark => .ok (.anything, p)
  | .endMark, _, _, _ => .ok (.anything, unclaimed)

/-- Reads arguments, given what the first of them is read for. -/
def readLevel (operands : Operands) : Awaiting → Parsed → List (Text × Argument) →
    Except Refusal Parsed
  | .value _ _, _, [] => .error .usage
  | _, p, [] => .ok p
  | .value name accepts, p, (t, a) :: rest =>
    match a with
    | .operand =>
      if accepts t then
        readLevel operands .anything { p with values := p.values ++ [(name, t)] } rest
      else .error .usage
    | _ => .error .usage
  | awaiting, p, (t, a) :: rest => do
    let (awaiting, p) ← takeArgument operands awaiting p t a
    readLevel operands awaiting p rest

/-- Reads one level of the command line. -/
def parseLevel (specs : List OptionSpec) (operands : Operands) (args : List Text) :
    Except Refusal Parsed := do
  readLevel operands .anything {} (← classifyAll (.help :: specs) args)

namespace Parsed

def value? (p : Parsed) (name : String) : Option Text := p.values.reverse.lookup (Text.of name)

def has (p : Parsed) (name : String) : Bool := (p.value? name).isSome

end Parsed

end DiagramRepair.CommandLine
