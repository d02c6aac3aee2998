import VerilogIndex.Index.Tables
import VerilogIndex.Path

/-!
# The design hierarchy

A module unfolds into its instances, and an instance whose type is in the index into those of its
module. The unfolding is cut at types that are not in the index, where a module would stand below
itself, and at a depth.
-/

namespace VerilogIndex

inductive Node where
  | root (m : Module) (children : List Node)
  /-- An instance of a module that is not in the index. -/
  | blackBox (i : Instance)
  /-- An instance of a module that stands above it. -/
  | recursive (i : Instance) (m : Module)
  | inner (i : Instance) (m : Module) (children : List Node)
  deriving Repr

namespace Node

def module? : Node → Option Module
  | root m _ | recursive _ m | inner _ m _ => some m
  | blackBox _ => none

def instance? : Node → Option Instance
  | root .. => none
  | blackBox i | recursive i _ | inner i _ _ => some i

def children : Node → List Node
  | root _ cs | inner _ _ cs => cs
  | blackBox _ | recursive .. => []

def label : Node → Text
  | root m _ => m.name
  | blackBox i | recursive i _ | inner i _ _ => i.text

def location : Node → Location
  | root m _ => m.location
  | blackBox i | recursive i _ | inner i _ _ => i.location

/-- What stands behind the label. -/
def mark : Node → Text
  | root m _ => "  [" ++ Path.baseName m.file ++ "]"
  | blackBox _ => "  (black box)"
  | recursive .. => "  (recursive)"
  | inner .. => []

/-- The line of a node. -/
def line (indent : Text) (level : Nat) (n : Node) : Text :=
  (List.replicate level indent).flatten ++ n.label ++ n.mark

mutual

/-- The line of a node and those below it. -/
def lines (indent : Text) (level : Nat) : Node → List Text
  | root m cs => line indent level (root m cs) :: forestLines indent (level + 1) cs
  | inner i m cs => line indent level (inner i m cs) :: forestLines indent (level + 1) cs
  | blackBox i => [line indent level (blackBox i)]
  | recursive i m => [line indent level (recursive i m)]

/-- The lines of several nodes. -/
def forestLines (indent : Text) (level : Nat) : List Node → List Text
  | [] => []
  | n :: ns => lines indent level n ++ forestLines indent level ns

end

end Node

namespace Hierarchy

/-- The instances directly in a module. -/
def childrenOfModule (m : Module) : List Instance := m.instances

/-- The instances directly below an instance. -/
def childrenOfInstance (t : Tables) (i : Instance) : List Instance :=
  ((t.module? i.type).map (·.instances)).getD []

/-- The nodes below a module, whose name and those above it are in `above`. -/
def unfold (t : Tables) : (depth : Nat) → (above : List Text) → Module → List Node
  | 0, _, _ => []
  | depth + 1, above, m => m.instances.map fun i =>
    match t.module? i.type with
    | none => .blackBox i
    | some below =>
      if below.name ∈ above then .recursive i below
      else .inner i below (unfold t depth (below.name :: above) below)

/-- The tree below a module. -/
def ofModule (t : Tables) (depth : Nat) (m : Module) : Node :=
  .root m (unfold t depth [m.name] m)

/-- The depth that is enough for most designs. -/
def usualDepth : Nat := 32

/-- The trees below the module of that name, or below every module. -/
def forest (t : Tables) (top : Option Text) (depth : Nat) : List Node :=
  let roots := match top with
    | some name => (t.module? name).toList
    | none => t.sortedModules
  roots.map (ofModule t depth)

/-- The indentation by one level. -/
def usualIndent : Text := "    "

/-- The trees as text, a line for each node. -/
def render (indent : Text) (nodes : List Node) : Text :=
  Text.joinWith "\n" (Node.forestLines indent 0 nodes)

end Hierarchy

end VerilogIndex
