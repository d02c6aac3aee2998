import VerilogIndex.Design.Direction
import VerilogIndex.Text.Bracket

/-!
# Ports and parameters

A port has a name, a direction and its type as written: a storage class and packed ranges in
square brackets, either of which may be missing.
-/

namespace VerilogIndex

structure Port where
  name : Text
  direction : Direction
  type : Text := []
  deriving DecidableEq, Repr

namespace Port

/-- The first range of the type, with its brackets, or nothing. -/
def bitRange (p : Port) : Text := (Text.firstGroup? p.type).getD []

/-- The words of the type outside of its ranges. -/
def storageClass (p : Port) : Text := Text.squeeze (Text.spaceGroups p.type)

/-- Direction and type, as a comment beside the port tells them. -/
def comment (p : Port) : Text :=
  if p.type.isEmpty then p.direction.text else p.direction.text ++ " " ++ p.type

/-- The port's declaration. -/
def text (p : Port) : Text := p.comment ++ " " ++ p.name

end Port

/-- A parameter with its default expression as written. -/
structure Parameter where
  name : Text
  value : Text := []
  deriving DecidableEq, Repr

def Parameter.text (p : Parameter) : Text := "parameter " ++ p.name ++ " = " ++ p.value

end VerilogIndex
