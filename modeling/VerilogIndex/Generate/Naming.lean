import VerilogIndex.Design.Port
import VerilogIndex.Pattern.Read

/-!
# Clocks and resets by name

Clock and reset ports are known by their names, through two searches. A search comes from a pattern,
and a wrong pattern matters only when its search is first needed.
-/

namespace VerilogIndex.Generate

/-- What a pattern comes to. -/
inductive Search where
  /-- The names in which the pattern is found. -/
  | names (found : Text → Bool)
  /-- A pattern for bytes, which cannot be looked for in a name. -/
  | bytes
  /-- What is wrong with the pattern. -/
  | wrong (e : Pattern.Error)

/-- Why a name cannot be searched. -/
inductive SearchError where
  | pattern (e : Pattern.Error)
  | bytes
  deriving DecidableEq, Repr

namespace Search

def ofSource (source : Pattern.Source) : Search :=
  match source.read with
  | .error e => .wrong e
  | .ok p =>
    match source with
    | .text _ => .names p.matchesIn
    | .bytes _ => .bytes

def ofPattern (pattern : Text) : Search := ofSource (.text pattern)

def finds (name : Text) : Search → Except SearchError Bool
  | .names found => .ok (found name)
  | .bytes => .error .bytes
  | .wrong e => .error (.pattern e)

end Search

/-- The searches for the names of clocks and resets. -/
structure Naming where
  clock : Search := .ofPattern "clk|clock"
  reset : Search := .ofPattern "rst|reset"

/-- Clocks and resets are named by these patterns. -/
def Naming.ofPatterns (clock reset : Text) : Naming := ⟨.ofPattern clock, .ofPattern reset⟩

/-- The first port whose name the search finds. A wrong pattern is told even without ports. -/
def findPort (ports : List Port) : Search → Except SearchError (Option Port)
  | .names found => .ok (ports.find? fun port => found port.name)
  | .bytes => if ports.isEmpty then .ok none else .error .bytes
  | .wrong e => .error (.pattern e)

/-- The name is that of a clock or, failing that, of a reset. -/
def Naming.isSpecial (n : Naming) (name : Text) : Except SearchError Bool := do
  if ← n.clock.finds name then return true else n.reset.finds name

/-- The rank of a direction in a port table. -/
def directionRank : Direction → Nat
  | .input => 1
  | .output => 2
  | .inout => 3

/-- The rank of a port in a port table: clocks and resets first, then by direction. -/
def Naming.rank (n : Naming) (p : Port) : Except SearchError (Nat × Nat) := do
  let special ← n.isSpecial p.name
  return (if special then 0 else 1, directionRank p.direction)

def rankLe (a b : Nat × Nat) : Bool := a.1 < b.1 || (a.1 == b.1 && a.2 ≤ b.2)

/-- The ports by rank; ports of one rank keep their order. -/
def Naming.sortPorts (n : Naming) (ports : List Port) : Except SearchError (List Port) := do
  let ranked ← ports.mapM fun p => return (← n.rank p, p)
  return (ranked.mergeSort fun a b => rankLe a.1 b.1).map (·.2)

end VerilogIndex.Generate
