import VerilogIndex.Design.Module

/-!
# Instantiation templates

A template instantiates a module with every port connected to a signal of its own name. On demand
each port's line ends in a comment with direction and type, from which the signals can be declared.
-/

namespace VerilogIndex.Generate

/-- Each name filled up to the length of the longest. -/
def padNames (names : List Text) : List Text := names.map (Text.padRight (Text.maxLength names))

/-- How a template is laid out. -/
structure Template where
  comments : Bool := false
  /-- The column before which no comment starts. -/
  commentColumn : Int := 30
  indent : Text := "    "
  /-- What the instance's name starts with, before the module's name. -/
  instanceLead : Text := "u_"
  deriving DecidableEq, Repr

namespace Template

/-- The comma after an item unless it is the last. -/
def comma (last : Bool) : Text := if last then [] else ","

/-- The lines that set parameters, with names filled up to `width`. -/
def parameterLines (s : Template) (width : Nat) : List Parameter → List Text
  | [] => []
  | p :: ps =>
    (s.indent ++ "." ++ Text.padRight width p.name ++ " ( " ++ p.value ++ " )" ++ comma ps.isEmpty)
      :: parameterLines s width ps

def parameterBlock (s : Template) (ps : List Parameter) : Text :=
  if ps.isEmpty then []
  else
    let width := Text.maxLength (ps.map (·.name))
    " #(\n" ++ Text.joinWith "\n" (s.parameterLines width ps) ++ "\n)"

/-- The comment of a port after its line. -/
def commented (s : Template) (line : Text) (p : Port) : Text :=
  if s.comments then
    line ++ List.replicate (s.commentColumn - line.length).toNat ' ' ++ " // " ++ p.comment
  else line

/-- The lines that connect ports, with names filled up to `width`. -/
def portLines (s : Template) (width : Nat) : List Port → List Text
  | [] => []
  | p :: ps =>
    let name := Text.padRight width p.name
    s.commented (s.indent ++ "." ++ name ++ " ( " ++ name ++ " )" ++ comma ps.isEmpty) p
      :: portLines s width ps

def portBlock (s : Template) (ps : List Port) : Text :=
  if ps.isEmpty then " ();"
  else
    let width := Text.maxLength (ps.map (·.name))
    " (\n" ++ Text.joinWith "\n" (s.portLines width ps) ++ "\n);"

/-- The instantiation of a module. -/
def render (s : Template) (m : Module) : Text :=
  m.name ++ s.parameterBlock m.parameters ++ " " ++ s.instanceLead ++ m.name ++ s.portBlock m.ports

end Template

end VerilogIndex.Generate
