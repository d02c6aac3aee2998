import VerilogIndex.Design.Port

/-!
# Modules

What is known of a module: its name, where it is defined, its parameters, ports and the instances
of other modules in its body. An instance names its module only; the index resolves it.
-/

namespace VerilogIndex

/-- A stretch of a line of a file; line and column count from zero. -/
structure Location where
  file : Text
  line : Nat := 0
  column : Nat := 0
  length : Nat := 0
  deriving DecidableEq, Repr

/-- The location as people read it, counted from one. -/
def Location.text (l : Location) : Text :=
  l.file ++ ":" ++ Text.ofNat (l.line + 1) ++ ":" ++ Text.ofNat (l.column + 1)

structure Instance where
  type : Text
  name : Text
  location : Location
  owner : Text
  deriving DecidableEq, Repr

def Instance.text (i : Instance) : Text := i.name ++ " : " ++ i.type

structure Module where
  name : Text
  file : Text
  location : Location
  ports : List Port := []
  parameters : List Parameter := []
  instances : List Instance := []
  deriving DecidableEq, Repr

namespace Module

def text (m : Module) : Text := "module " ++ m.name

def addPort (m : Module) (p : Port) : Module := { m with ports := m.ports ++ [p] }

def addParameter (m : Module) (p : Parameter) : Module :=
  { m with parameters := m.parameters ++ [p] }

def addInstance (m : Module) (i : Instance) : Module := { m with instances := m.instances ++ [i] }

/-- The first port of that name. -/
def port? (m : Module) (name : Text) : Option Port := m.ports.find? fun p => p.name == name

/-- The first parameter of that name. -/
def parameter? (m : Module) (name : Text) : Option Parameter :=
  m.parameters.find? fun p => p.name == name

end Module

end VerilogIndex
