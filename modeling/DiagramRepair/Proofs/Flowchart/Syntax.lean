import DiagramRepair.Analysis.Identifiers

namespace DiagramRepair.Flowchart

open Pattern

def isLabelChar (c : Char) : Bool := c.isAlphanum || among " ,." c

structure Name where
  text : Text
  ne_nil : text ≠ []
  alphanum : ∀ c ∈ text, c.isAlphanum
  not_keyword : text ∉ keywords

structure Label where
  text : Text
  plain : ∀ c ∈ text, isLabelChar c
  not_blank : ∃ c ∈ text, c ≠ ' '

def Label.bracketed (l : Label) : Text := Text.of "[\"" ++ (l.text ++ Text.of "\"]")

structure Ref where
  name : Name
  label? : Option Label := none

def Ref.text (r : Ref) : Text := r.name.text ++ (r.label?.map Label.bracketed).getD []

/-- An arrow, without a label, with one between bars, or with one between dashes. -/
inductive Connector where
  | bare
  | piped (label : Label)
  | quoted (label : Label)

def Connector.text : Connector → Text
  | bare => Text.of " --> "
  | piped l => Text.of " -->|\"" ++ (l.text ++ Text.of "\"| ")
  | quoted l => Text.of " -- \"" ++ (l.text ++ Text.of "\" --> ")

inductive Form where
  | node (name : Name) (label : Label)
  | edge (source : Ref) (connector : Connector) (target : Ref)
  | reversed (left right : Ref)

namespace Form

def text : Form → Text
  | node name label => name.text ++ label.bracketed
  | edge source connector target => source.text ++ (connector.text ++ target.text)
  | reversed left right => left.text ++ (Text.of " <-- " ++ right.text)

def turned : Form → Form
  | reversed left right => edge right .bare left
  | form => form

inductive Introduces : Form → Name → Prop
  | node {name : Name} {label : Label} : Introduces (node name label) name
  | source {source target : Ref} {connector : Connector} :
      Introduces (edge source connector target) source.name
  | target {source target : Ref} {connector : Connector} (h : target.label?.isSome) :
      Introduces (edge source connector target) target.name
  | left {left right : Ref} : Introduces (reversed left right) left.name
  | right {left right : Ref} (h : right.label?.isSome) :
      Introduces (reversed left right) right.name

inductive Targets : Form → Name → Prop
  | mk {source target : Ref} {connector : Connector} (h : target.label? = none) :
      Targets (edge source connector target) target.name

end Form

/-- A line of a flowchart. -/
structure Statement where
  indent : Nat := 0
  form : Form
  terminated : Bool := false

namespace Statement

def ending (s : Statement) : Text := if s.terminated then [';'] else []

def text (s : Statement) : Text := List.replicate s.indent ' ' ++ (s.form.text ++ s.ending)

def turned (s : Statement) : Statement := { s with form := s.form.turned }

end Statement

def header : Text := Text.of "graph TD"

def block (statements : List Statement) : Text :=
  Text.unlines (header :: statements.map Statement.text)

/-- Every target without a label is a name that some line introduces. -/
def TargetsKnown (statements : List Statement) : Prop :=
  ∀ s ∈ statements, ∀ name, s.form.Targets name →
    ∃ s' ∈ statements, s'.form.Introduces name

end DiagramRepair.Flowchart
