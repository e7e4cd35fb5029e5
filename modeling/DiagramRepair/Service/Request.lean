import DiagramRepair.Json.Parser

namespace DiagramRepair

namespace Service

inductive ProblemKind where
  | missing | invalidJson | notAnObject | notText | notBool | unknownBool
  deriving DecidableEq

def ProblemKind.name : ProblemKind → String
  | missing => "missing"
  | invalidJson => "json_invalid"
  | notAnObject => "model_attributes_type"
  | notText => "string_type"
  | notBool => "bool_type"
  | unknownBool => "bool_parsing"

structure Problem where
  kind : ProblemKind
  field : Option String

abbrev Decoded (α : Type) := Except (List Problem) α

def Decoded.problems {α : Type} : Decoded α → List Problem
  | .ok _ => []
  | .error ps => ps

def readBody (body : Text) : Decoded Json :=
  if body.isEmpty then .error [⟨.missing, none⟩]
  else
    match Json.parseMessage? body with
    | none => .error [⟨.invalidJson, none⟩]
    | some (.obj fields) => .ok (.obj fields)
    | some _ => .error [⟨.notAnObject, none⟩]

abbrev FieldReader (α : Type) := Json → Except ProblemKind α

def readText : FieldReader Text
  | .str s => .ok s
  | _ => .error .notText

def readIntBool (n : Int) : Except ProblemKind Bool :=
  if n < -Int.pow 2 63 || Int.pow 2 63 ≤ n then .error .notBool
  else if n = 0 then .ok false
  else if n = 1 then .ok true
  else .error .unknownBool

def trueWords : List Text := ["1", "on", "t", "true", "y", "yes"].map Text.of

def falseWords : List Text := ["0", "off", "f", "false", "n", "no"].map Text.of

def readBool : FieldReader Bool
  | .bool b => .ok b
  | .int n => readIntBool n
  | .float x =>
    if x == 0.0 then .ok false
    else if x == 1.0 then .ok true
    else if x == x.floor && x.abs < 9223372036854775808.0 then .error .unknownBool
    else .error .notBool
  | .str s =>
    let word := s.map Char.toLower
    if trueWords.contains word then .ok true
    else if falseWords.contains word then .ok false
    else .error .unknownBool
  | _ => .error .notBool

def required {α : Type} (read : FieldReader α) (name : String) (body : Json) : Decoded α :=
  match body.lookup? (Text.of name) with
  | none => .error [⟨.missing, some name⟩]
  | some v => (read v).mapError fun kind ↦ [⟨kind, some name⟩]

def withDefault {α : Type} (read : FieldReader α) (default : α) (name : String) (body : Json) :
    Decoded α :=
  match body.lookup? (Text.of name) with
  | none => .ok default
  | some v => (read v).mapError fun kind ↦ [⟨kind, some name⟩]

def nullable {α : Type} (read : FieldReader α) : FieldReader (Option α)
  | .null => .ok none
  | v => (read v).map some

def both {α β : Type} (a : Decoded α) (b : Decoded β) : Decoded (α × β) :=
  match a, b with
  | .ok a, .ok b => .ok (a, b)
  | a, b => .error (a.problems ++ b.problems)

structure RefineRequest where
  content : Text
  deep : Bool

structure BatchRequest where
  folder : Text
  moveErrorFiles : Option Bool
  errorFolder : Option Text
  writeErrorReport : Option Bool

def readRefine (body : Json) : Decoded RefineRequest :=
  (both (required readText "content" body) (withDefault readBool true "deep" body)).map
    fun (content, deep) ↦ ⟨content, deep⟩

def readContent (body : Json) : Decoded Text := required readText "content" body

def readBatch (body : Json) : Decoded BatchRequest :=
  let optional {α : Type} (read : FieldReader α) := withDefault (nullable read) none
  (both (required readText "folder" body)
    (both (optional readBool "move_error_files" body)
      (both (optional readText "error_folder" body)
        (optional readBool "write_error_report" body)))).map
    fun (folder, move, errorFolder, report) ↦ ⟨folder, move, errorFolder, report⟩

end Service

end DiagramRepair
