import VerilogIndex.Design.Port
import VerilogIndex.Source.Identifier
import VerilogIndex.Source.Split

/-!
# Parameters of a header

An item of a parameter block has the keyword `parameter` or `localparam`, or takes that of the item
before it. Local parameters are no parameters of the module. The name is the last identifier before
the first equals sign outside of ranges, and the default is all that follows the sign.
-/

namespace VerilogIndex.Source

open Text

/-- The keyword an item opens with, as whether it declares parameters, and the item after it. -/
def parameterKeyword? (item : Text) : Option (Bool × Text) :=
  match afterKeyword? "parameter" item with
  | some r => some (true, r)
  | none => (afterKeyword? "localparam" item).map fun r => (false, r)

/-- The parameter that `item` sets, if it sets one. -/
def parameterOf? (item : Text) : Option Parameter := do
  let (left, value) := cut '=' item
  let value ← value
  let name ← (identifiers (spaceGroups left)).getLast?
  some ⟨name, trim value⟩

/-- The parameters of the items, given whether an item without a keyword declares one. -/
def parametersFrom : (declares : Bool) → List Text → List Parameter
  | _, [] => []
  | declares, item :: items =>
    let (declares, item) := match parameterKeyword? (trim item) with
      | some (declares, r) => (declares, trim r)
      | none => (declares, trim item)
    (if declares then (parameterOf? item).toList else []) ++ parametersFrom declares items

/-- The parameters of a parameter block, in order. -/
def parameters (block : Text) : List Parameter := parametersFrom false (splitTopLevel block)

end VerilogIndex.Source
