import VerilogIndex.Generate.Instantiation
import VerilogIndex.Generate.Naming
import VerilogIndex.Path

/-!
# Module documentation

Tables of a module's parameters and ports, as a Markdown page that ends in an example instantiation
or as comma-separated sections. Ports come by rank: clocks and resets, then by direction.
-/

namespace VerilogIndex.Generate

/-- A row of a Markdown table. -/
def tableRow (cells : List Text) : Text := "| " ++ Text.joinWith " | " cells ++ " |"

/-- A Markdown table of left-aligned columns. -/
def table (headers : List Text) (rows : List (List Text)) : List Text :=
  tableRow headers
    :: ("|" ++ Text.joinWith "|" (headers.map fun _ => (" :--- " : Text)) ++ "|")
    :: rows.map tableRow

/-- A text as code. -/
def code (t : Text) : Text := "`" ++ t ++ "`"

/-- A Markdown page on a module. -/
structure Page where
  /-- The date on the page; that of the day if there is none. -/
  date : Option Text := none
  naming : Naming := {}

namespace Page

def parameterPart (ps : List Parameter) : List Text :=
  if ps.isEmpty then []
  else
    List.flatten (α := Text) [
      ["## Parameters", ""],
      table ["Name", "Default Value", "Description"]
        (ps.map fun p => [code p.name, code p.value, "-"]),
      [""]]

def portRow (p : Port) : List Text :=
  ["**" ++ p.name ++ "**", p.direction.text, if p.type.isEmpty then [] else code p.type, "-"]

/-- The part on the ports, given by rank. -/
def portPart (ports : List Port) : List Text :=
  if ports.isEmpty then ["*(No ports detected)*", ""]
  else
    List.flatten (α := Text) [
      ["## Interface", ""],
      table ["Port Name", "Direction", "Type", "Description"] (ports.map portRow),
      [""]]

def render (page : Page) (today : Text) (m : Module) : Except SearchError Text := do
  let ports ← page.naming.sortPorts m.ports
  let lines := List.flatten (α := Text) [
    ["# Module: " ++ m.name,
     "",
     "**File:** " ++ code (Path.baseName m.file) ++ "  ",
     "**Date:** " ++ page.date.getD today,
     ""],
    parameterPart m.parameters,
    portPart ports,
    ["## Example Instantiation", "", "```verilog", ({} : Template).render m, "```"]]
  return Text.joinWith "\n" lines ++ "\n"

end Page

/-- Comma-separated sections on a module. -/
structure Sheet where
  naming : Naming := {}
  /-- A field is quoted for a carriage return too. Writers of such sheets differ in this. -/
  quotesReturns : Bool := false

/-- The character has the field it is in quoted. -/
def Sheet.quotes (s : Sheet) (c : Char) : Bool :=
  c == ',' || c == '"' || c == '\n' || (s.quotesReturns && c == '\r')

/-- A field of comma-separated values, its quotes doubled if it is quoted. -/
def Sheet.field (s : Sheet) (t : Text) : Text :=
  if t.any s.quotes then
    "\"" ++ (t.flatMap fun c => if c = '"' then ['"', '"'] else [c]) ++ "\""
  else t

/-- A line of comma-separated values. -/
def Sheet.record (s : Sheet) (fields : List Text) : Text :=
  Text.joinWith "," (fields.map s.field) ++ "\n"

def Sheet.render (s : Sheet) (m : Module) : Except SearchError Text := do
  let ports ← s.naming.sortPorts m.ports
  let records := List.flatten (α := List Text) [
    [["Parameter Name", "Default Value"]],
    m.parameters.map fun p => [p.name, p.value],
    [[], ["Port Name", "Direction", "Type", "Bit Range"]],
    ports.map fun p => [p.name, p.direction.text, p.type, p.bitRange]]
  return records.flatMap s.record

end VerilogIndex.Generate
