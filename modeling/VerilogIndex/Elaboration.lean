import VerilogIndex.Source.Read
import VerilogIndex.Value

/-!
# Elaborated modules

Ports and parameters of a module as a compiler elaborates them: ranges are evaluated, and local
parameters are told apart. What the compiler finds at the top of a text is given; heading, instances
and locations still come from the text itself.
-/

namespace VerilogIndex.Elaboration

/-- A part of the compiler that a reading needs. -/
inductive Part where
  | syntaxTree
  | compilation
  | symbolKind
  | argumentDirection
  deriving DecidableEq, Repr

def Part.text : Part → Text
  | .syntaxTree => "SyntaxTree"
  | .compilation => "Compilation"
  | .symbolKind => "SymbolKind"
  | .argumentDirection => "ArgumentDirection"

/-- A port's type: whether it is integral, its width, and its range if it has a fixed one. -/
structure PortType where
  integral : Bool
  width : Int
  range : Option (Int × Int) := none
  deriving DecidableEq, Repr

/-- The range of an integral type of more than one bit. -/
def PortType.text (t : PortType) : Text :=
  if !t.integral || t.width ≤ 1 then []
  else
    let (left, right) := t.range.getD (t.width - 1, 0)
    "[" ++ Text.ofInt left ++ ":" ++ Text.ofInt right ++ "]"

/-- An item of a port list. -/
structure PortSymbol where
  name : Text
  /-- The direction, unless it is none of the three. -/
  direction : Option Direction
  type : PortType
  /-- Whether the item is a port rather than an interface or the like. -/
  isPort : Bool := true
  deriving DecidableEq, Repr

/-- An item of a parameter list; the name is empty if it has none. -/
structure ParameterSymbol where
  name : Text
  value : Value
  isLocal : Bool := false

/-- A top instance. -/
structure Top where
  name : Text
  parameters : List ParameterSymbol := []
  ports : List PortSymbol := []

/-- What the compiler tells about a text, and the parts it lacks. -/
structure Compiler where
  tops : List Top := []
  /-- Messages, each with whether it is an error. -/
  diagnostics : List (Bool × Text) := []
  missing : List Part := []

inductive Error where
  | notInstalled
  | missing (part : Part)
  deriving DecidableEq, Repr

def Error.message : Error → Text
  | .notInstalled =>
    "pyslang is required for the slang strategy but is not installed. " ++
    "Install it via `pip install pyslang` or use the fast strategy."
  | .missing part => "the compiler has no " ++ part.text

def Compiler.need (c : Compiler) (part : Part) : Except Error Unit :=
  if part ∈ c.missing then .error (.missing part) else .ok ()

/-- The parameter an item stands for: none for a local or nameless one. -/
def parameterOf? (p : ParameterSymbol) : Option Parameter :=
  if p.isLocal || p.name.isEmpty then none
  else
    some ⟨p.name, match p.value with
      | .null => []
      | v => v.display⟩

def portOf (p : PortSymbol) : Port := ⟨p.name, p.direction.getD .input, p.type.text⟩

/-- The parameters and ports of the top instance of that name. -/
def Compiler.interface (c : Compiler) (name : Text) :
    Except Error (List Parameter × List Port) := do
  match c.tops.find? fun t => t.name == name with
  | none => return ([], [])
  | some top =>
    c.need .symbolKind
    let ports := top.ports.filter (·.isPort)
    if !ports.isEmpty then c.need .argumentDirection
    return (top.parameters.filterMap parameterOf?, ports.map portOf)

/-- The first module of a text, and the errors recorded once the text is compiled. -/
def readModule (errors : List Text) (compiler : Option Compiler) (t path : Text) :
    Except Error (Option Module) × List Text :=
  match compiler with
  | none => (.error .notInstalled, errors)
  | some c =>
    let code := Source.blankComments t
    match Source.findHeading? code with
    | none => (.ok none, errors)
    | some heading =>
      match do c.need .syntaxTree; c.need .compilation with
      | .error e => (.error e, errors)
      | .ok () =>
        let result := do
          let (parameters, ports) ← c.interface heading.name
          return some {
            name := heading.name
            file := path
            location := Source.locate t heading.name heading.nameStart path
            parameters
            ports
            instances := Source.locatedInstances t code heading.start path }
        (result, (c.diagnostics.filter (·.1)).map (·.2))

end VerilogIndex.Elaboration
