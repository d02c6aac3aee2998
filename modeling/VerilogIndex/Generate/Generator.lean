import VerilogIndex.Generate.Document
import VerilogIndex.Generate.Testbench
import VerilogIndex.Registry

/-!
# Generators

The generators that render a module as text, kept in a registry and built from named options.
-/

namespace VerilogIndex

inductive Generator where
  | instantiation (t : Generate.Template)
  | testbench (b : Generate.Testbench)
  | markdown (p : Generate.Page)
  | csv (s : Generate.Sheet)

namespace Generator

/-- A kind of generator, before its options are known. -/
inductive Kind where
  | instantiation
  | testbench
  | markdown
  | csv
  deriving DecidableEq, Repr

def registry : Registry Kind where
  name := "generator"
  items := [
    ⟨"instantiation", "InstantiationGenerator", .instantiation⟩,
    ⟨"testbench", "TestbenchGenerator", .testbench⟩,
    ⟨"markdown", "MarkdownDocGenerator", .markdown⟩,
    ⟨"csv", "CsvDocGenerator", .csv⟩]

inductive Error where
  | registry (e : Registry.Error)
  /-- The option is not one of the generator's, or its value is of no use there. -/
  | option (name : Text)

/-- The text of an option. -/
def textOption (name : Text) : Value → Except Error Text
  | .text t => .ok t
  | _ => .error (.option name)

/-- Sets one of the two patterns. -/
def setNaming (n : Generate.Naming) (name : Text) (v : Value) : Except Error Generate.Naming := do
  if name = "clock_pattern".toList then
    return { n with clock := .ofPattern (← textOption name v) }
  else if name = "reset_pattern".toList then
    return { n with reset := .ofPattern (← textOption name v) }
  else throw (.option name)

def setOption : Generator → Text × Value → Except Error Generator
  | .instantiation t, (name, v) => do
    if name = "with_comments".toList then return .instantiation { t with comments := v.holds }
    else if name = "comment_column".toList then
      match v.int? with
      | some n => return .instantiation { t with commentColumn := n }
      | none => throw (.option name)
    else if name = "indent".toList then
      return .instantiation { t with indent := ← textOption name v }
    else if name = "instance_prefix".toList then
      return .instantiation { t with instanceLead := ← textOption name v }
    else throw (.option name)
  | .testbench b, (name, v) => do
    if name = "clock_period".toList then return .testbench { b with clockPeriod := v }
    else if name = "reset_cycles".toList then return .testbench { b with resetCycles := v }
    else if name = "timeout".toList then return .testbench { b with timeout := v }
    else return .testbench { b with naming := ← setNaming b.naming name v }
  | .markdown p, (name, v) => do
    if name = "date".toList then
      match v with
      | .null => return .markdown { p with date := none }
      | v => return .markdown { p with date := some (← textOption name v) }
    else return .markdown { p with naming := ← setNaming p.naming name v }
  | .csv s, (name, v) => return .csv { s with naming := ← setNaming s.naming name v }

/-- The generator of a kind with default options. -/
def Kind.standard : Kind → Generator
  | .instantiation => .instantiation {}
  | .testbench => .testbench {}
  | .markdown => .markdown {}
  | .csv => .csv {}

/-- The generator under a key with the given options. -/
def create (key : Text) (options : List (Text × Value)) : Except Error Generator := do
  match registry.get key with
  | .error e => throw (.registry e)
  | .ok item => options.foldlM setOption item.item.standard

/-- The text for a module on a day. -/
def render (today : Text) (m : Module) : Generator → Except Generate.SearchError Text
  | .instantiation t => return t.render m
  | .testbench b => b.render m
  | .markdown p => p.render today m
  | .csv s => s.render m

end Generator

end VerilogIndex
