import VerilogIndex.Index.Tables
import VerilogIndex.Path

/-!
# Summaries

A module at a glance: its file, its parameters, and its ports by direction.
-/

namespace VerilogIndex.Hover

/-- Lines set as code below a heading. -/
def codeBlock (heading : Text) (lines : List Text) : List Text :=
  ([heading, "```verilog"] : List Text) ++ lines ++ (["```"] : List Text)

def portLine (p : Port) : Text :=
  let parts := [Text.padRight 6 p.direction.text, p.type, p.name]
  Text.joinWith " " (parts.filter (!·.isEmpty))

/-- The ports of one direction below their title. -/
def portGroup (ports : List Port) (d : Direction) (title : Text) : List Text :=
  match ports.filter fun p => p.direction == d with
  | [] => []
  | group => ("// " ++ title) :: group.map portLine

def parameterLines (ps : List Parameter) : List Text :=
  if ps.isEmpty then []
  else codeBlock "#### Parameters:" (ps.map fun p => p.name ++ " = " ++ p.value)

def portLines (ps : List Port) : List Text :=
  if ps.isEmpty then ["*(No ports detected or parsing failed)*"]
  else
    codeBlock "#### Ports:" (portGroup ps .input "Inputs" ++ portGroup ps .output "Outputs" ++
      portGroup ps .inout "Inouts")

/-- The summary of a module. -/
def ofModule (m : Module) : Text :=
  let heading : List Text :=
    ["### Module: **" ++ m.name ++ "**", "---", "*File: " ++ Path.baseName m.file ++ "*", ""]
  Text.joinWith "\n" (heading ++ parameterLines m.parameters ++ portLines m.ports)

end VerilogIndex.Hover
