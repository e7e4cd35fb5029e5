import DiagramRepair.CommandLine.Arguments
import DiagramRepair.File.Path
import DiagramRepair.Settings

namespace DiagramRepair.CommandLine

inductive Command where
  | refine (file : Text) (deep : Bool) (parser : Option ParserChoice) (write : Bool)
  | repair (file : Text)
  | latex (file : Text) (write : Bool)
  | check (file : Text) (parser : Option ParserChoice)
  | batch (folder : Text) (parser : Option ParserChoice) (moveErrors : Option Bool)
      (errorFolder : Option Text) (errorReport : Option Bool)
  | serve (host : Option Text) (portNumber : Option Int)

def Command.path? : Command → Option Path
  | .refine file _ _ _ | .repair file | .latex file _ | .check file _ => some (.ofText file)
  | .batch folder _ _ _ _ => some (.ofText folder)
  | .serve _ _ => none

structure Invocation where
  service : Option Text
  command : Command

def parserOption : OptionSpec := .valued "--parser" fun t ↦ (ParserChoice.ofName? t).isSome

structure CommandSpec where
  name : Text
  options : List OptionSpec
  operands : Operands
  command : Parsed → Command

namespace CommandSpec

def parserOf (p : Parsed) : Option ParserChoice := (p.value? "--parser").bind ParserChoice.ofName?

def operand (p : Parsed) : Text := p.operands.head?.getD []

def given (p : Parsed) (name : String) : Option Bool := if p.has name then some true else none

def portNumber? (p : Parsed) : Option Int :=
  (p.value? "--port").bind fun t ↦ (Number.readInt t).toOption

def all : List CommandSpec :=
  [{ name := Text.of "refine"
     options := [.flag "--deep", parserOption, .flag "--write"]
     operands := .one
     command := fun p ↦ .refine (operand p) (p.has "--deep") (parserOf p) (p.has "--write") },
   { name := Text.of "repair"
     options := []
     operands := .one
     command := fun p ↦ .repair (operand p) },
   { name := Text.of "latex"
     options := [.flag "--write"]
     operands := .one
     command := fun p ↦ .latex (operand p) (p.has "--write") },
   { name := Text.of "check"
     options := [parserOption]
     operands := .one
     command := fun p ↦ .check (operand p) (parserOf p) },
   { name := Text.of "batch"
     options := [parserOption, .flag "--move-errors", .valued "--error-folder",
       .flag "--error-report"]
     operands := .one
     command := fun p ↦ .batch (operand p) (parserOf p) (given p "--move-errors")
       (p.value? "--error-folder") (given p "--error-report") },
   { name := Text.of "serve"
     options := [.valued "--host", .valued "--port" fun t ↦ (Number.readInt t).isOk]
     operands := .none
     command := fun p ↦ .serve (p.value? "--host") (portNumber? p) }]

def read (c : CommandSpec) (args : List Text) : Except Refusal Command := do
  let p ← parseLevel c.options c.operands args
  match c.operands, p.operands, p.unclaimed with
  | .one, [], _ => .error .usage
  | _, _, [] => return c.command p
  | _, _, _ => .error .usage

end CommandSpec

def parse (args : List Text) : Except Refusal Invocation := do
  let p ← parseLevel [.flag "--verbose", .valued "--api"] .rest args
  match p.operands with
  | [] => .error .usage
  | name :: rest =>
    match CommandSpec.all.find? (·.name = name) with
    | none => .error .usage
    | some c =>
      let command ← c.read rest
      if p.unclaimed.isEmpty then return ⟨p.value? "--api", command⟩ else .error .usage

end DiagramRepair.CommandLine
